import Hottpd.Core.ModuleManager
import Hottpd.Lib.Crlf

/-!
# MIME types: `MimeManager`

The types by extension, the extension being what is behind the last dot of the target.
The server starts with six; modules may add others.
-/

namespace Hottpd

open Bytes

abbrev MimeManager := SortedMap nameKey Bytes

namespace MimeManager

def addType (ext type : Bytes) (m : MimeManager) : MimeManager := m.insert ext type

/-- `GetType`; it is empty where there is none. -/
def getType (m : MimeManager) (ext : Bytes) : Bytes := (m.lookup ext).getD []

/-- What the constructor of the server adds. -/
def atStart : MimeManager :=
  [("jpg", "image/jpeg"), ("gif", "image/gif"), ("css", "text/html"), ("php", "text/html"),
    ("htm", "text/html"), ("html", "text/html")].foldl
      (fun m t => m.addType (str t.1) (str t.2)) SortedMap.empty

/-- No type holds a line end, if none does that has been added. -/
theorem getType_noCrlf {m : MimeManager} (h : ∀ e ∈ m.entries, NoCrlf e.2) (ext : Bytes) :
    NoCrlf (m.getType ext) := by
  unfold getType
  cases hext : m.lookup ext with
  | none => exact .nil
  | some type =>
      obtain ⟨ext', -, hmem⟩ := SortedMap.mem_of_lookup hext
      exact h (ext', type) hmem

theorem atStart_noCrlf (ext : Bytes) : NoCrlf (atStart.getType ext) :=
  getType_noCrlf (by decide) ext

end MimeManager

end Hottpd
