import Hottpd.Lib.Bytes
import Hottpd.Lib.SortedMap
import Mathlib.Data.Int.Order.Basic

/-!
# Header fields: `HTTPHeaders`

A `std::map` under `StrCaseLess`: names that differ only in case are one
name, the spelling of the first insertion stays, and the formatted block
lists the fields in the order of the lower-cased names.
-/

namespace Hottpd

open Bytes

/-- What `StrCaseLess` compares: the lower-cased signed characters, in
lexicographic order. -/
def caseKey (name : Bytes) : List Int := name.map fun c => signed (tolower c)

abbrev HTTPHeaders := SortedMap caseKey Bytes

namespace HTTPHeaders

def setHeader (h : HTTPHeaders) (name data : Bytes) : HTTPHeaders :=
  h.insert name data

def isSet (h : HTTPHeaders) (name : Bytes) : Bool := (h.lookup name).isSome

def createHeader (h : HTTPHeaders) (name data : Bytes) : HTTPHeaders :=
  if isSet h name then h else setHeader h name data

def removeHeader (h : HTTPHeaders) (name : Bytes) : HTTPHeaders := h.erase name

def clear : HTTPHeaders := SortedMap.empty

def getHeader (h : HTTPHeaders) (name : Bytes) : Bytes := (h.lookup name).getD []

def getFormattedHeaders (h : HTTPHeaders) : Bytes :=
  h.entries.flatMap fun e => e.1 ++ str ": " ++ e.2 ++ crlf

theorem getHeader_setHeader_self (h : HTTPHeaders) (name data : Bytes) :
    getHeader (setHeader h name data) name = data := by
  simp [getHeader, setHeader, SortedMap.lookup_insert_self]

theorem getHeader_setHeader_of_ne (h : HTTPHeaders) {name name' : Bytes}
    (data : Bytes) (hne : caseKey name' ≠ caseKey name) :
    getHeader (setHeader h name data) name' = getHeader h name' := by
  simp [getHeader, setHeader, SortedMap.lookup_insert_of_ne h data hne]

theorem getHeader_removeHeader_of_ne (h : HTTPHeaders) {name name' : Bytes}
    (hne : caseKey name' ≠ caseKey name) :
    getHeader (removeHeader h name) name' = getHeader h name' := by
  simp [getHeader, removeHeader, SortedMap.lookup_erase_of_ne h hne]

end HTTPHeaders

end Hottpd
