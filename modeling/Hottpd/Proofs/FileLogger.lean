import Hottpd.Lib.Runs
import Hottpd.Core.FileLogger

/-!
# What becomes of the lines

Where a write takes a part of the buffer the rest is thrown away with it, so lines are
kept only as long as each write takes all or nothing. And `HandleEvent` takes the
descriptor out of the engine whatever has come of its own write.
-/

namespace Hottpd

open Bytes

namespace FileLogger

/-- What has been written and what is in the buffer are all the lines, and as long as the buffer is
not empty because of a write the logger is registered. -/
structure Kept (l : FileLogger) : Prop where
  conserved : l.file ++ l.buffer = l.logged
  registered : l.pending = true → l.registered = true

/-- What a write of `text` must come to, made by `HandleEvent` if `event`: it takes all, or takes
nothing and the engine has the descriptor and does not lose it behind the event. -/
structure WriteFits (l : FileLogger) (text : Bytes) (a : LoggerAnswers) (event : Bool) : Prop where
  took : ∀ n, a.written = .took n → text.length ≤ n ∧ 0 ∉ text
  again : a.written = .again → text ≠ [] →
    (l.registered = true ∨ a.added = true) ∧ (event = true → a.removed = false)
  failed : a.written = .failed → l.pending = true → event = true → a.removed = false

def Fits (l : FileLogger) : LoggerEvent → Prop
  | .writeLogLine line a => l.log = true → l.WriteFits (l.buffer ++ line) a false
  | .handleEvent a => l.log = true → l.WriteFits l.buffer a true

/-! ## One write -/

variable {l : FileLogger} {a : LoggerAnswers} {line : Bytes}

/-- A C string that is as long as the string is all of it. -/
theorem zero_not_mem_of_length {s : Bytes} (h : s.length ≤ (cstr s).length) : 0 ∉ s := by
  have hpre : cstr s <+: s := List.takeWhile_prefix _
  exact cstr_eq_iff.1 (hpre.eq_of_length (Nat.le_antisymm hpre.length_le h))

theorem writeBuffer_all {n : Nat} (h : a.written = .took n) (hn : l.buffer.length ≤ n)
    (hnul : 0 ∉ l.buffer) : l.writeBuffer a =
      { l with file := l.file ++ l.buffer, buffer := [], pending := false } := by
  rw [writeBuffer, h]
  dsimp only
  rw [cstr_eq_self hnul, Nat.min_eq_right hn, List.take_length, if_neg (Nat.lt_irrefl _)]

/-- A write of a part, or of a text that the C string ends before. -/
theorem writeBuffer_part {n : Nat} (h : a.written = .took n)
    (hpart : ¬(l.buffer.length ≤ n ∧ 0 ∉ l.buffer)) :
    (l.writeBuffer a).logged = l.logged ∧ (l.writeBuffer a).buffer = [] ∧
      (l.writeBuffer a).file.length < l.file.length + l.buffer.length := by
  have hshort : min n (cstr l.buffer).length < l.buffer.length := by
    by_contra hge
    refine hpart ⟨by omega, zero_not_mem_of_length (by omega)⟩
  rw [writeBuffer, h]
  dsimp only
  rw [if_pos hshort]
  refine ⟨rfl, List.drop_length, ?_⟩
  change (l.file ++ _).length < _
  rw [List.length_append, List.length_take]
  omega

/-! ## One event -/

/-- With a line in the buffer and the log open. -/
def added (line : Bytes) (l : FileLogger) : FileLogger :=
  { l with buffer := l.buffer ++ line, logged := l.logged ++ line }

theorem writeLogLine_eq (line : Bytes) (a : LoggerAnswers) (l : FileLogger) :
    l.writeLogLine line a = if l.log then (l.added line).writeBuffer a else l.added line := by
  have hbuffer : (if line ≠ [] then l.buffer ++ line else l.buffer) = l.buffer ++ line := by
    by_cases hline : line = []
    · rw [if_neg (not_not.2 hline), hline, List.append_nil]
    · rw [if_pos hline]
  rw [writeLogLine, hbuffer]
  rfl

theorem added_nil (l : FileLogger) : l.added [] = l := by
  rw [added, List.append_nil, List.append_nil]

theorem writeBuffer_log (a : LoggerAnswers) (l : FileLogger) :
    (l.writeBuffer a).log = l.log := by
  rw [writeBuffer]
  split
  · dsimp only
    split <;> rfl
  · rfl
  · rfl

theorem handleEvent_eq (a : LoggerAnswers) (l : FileLogger) :
    l.handleEvent a = if l.log then (l.writeBuffer a).delFd a else l := by
  rw [handleEvent, writeLogLine_eq, added_nil]
  by_cases hopen : l.log = true
  · rw [if_pos hopen, if_pos ((writeBuffer_log a l).trans hopen), if_pos hopen]
  · rw [if_neg hopen, if_neg hopen, if_neg hopen]

/-- `DelFd` behind the write, if the write is made for an event. -/
def behind (event : Bool) (a : LoggerAnswers) (l : FileLogger) : FileLogger :=
  if event then l.delFd a else l

theorem behind_fields (event : Bool) (a : LoggerAnswers) (l : FileLogger) :
    (l.behind event a).file = l.file ∧ (l.behind event a).buffer = l.buffer ∧
      (l.behind event a).logged = l.logged ∧ (l.behind event a).pending = l.pending := by
  cases event <;> exact ⟨rfl, rfl, rfl, rfl⟩

theorem behind_registered (event : Bool) :
    (l.behind event a).registered = true ↔
      l.registered = true ∧ (event = true → a.removed = false) := by
  cases event with
  | false => exact (and_iff_left fun h => absurd h Bool.false_ne_true).symm
  | true =>
      change (l.registered && !a.removed) = true ↔ _
      rw [Bool.and_eq_true, Bool.not_eq_true', imp_iff_right rfl]

/-- What a write must leave for the promise to hold behind it. -/
theorem behind_kept (event : Bool) :
    (l.behind event a).Kept ↔ l.file ++ l.buffer = l.logged ∧
      (l.pending = true → l.registered = true ∧ (event = true → a.removed = false)) := by
  obtain ⟨hfile, hbuffer, hlogged, hpending⟩ := behind_fields event a l
  rw [← behind_registered, ← hfile, ← hbuffer, ← hlogged, ← hpending]
  exact ⟨fun h => ⟨h.conserved, h.registered⟩, fun h => ⟨h.1, h.2⟩⟩

theorem isEmpty_ne {s : Bytes} : (!s.isEmpty) = true ↔ s ≠ [] := by
  rw [Bool.not_eq_true', List.isEmpty_eq_false_iff]

theorem writeBuffer_again (h : a.written = .again) :
    l.writeBuffer a = { l with pending := !l.buffer.isEmpty }.addFd a := by
  rw [writeBuffer, h]

theorem writeBuffer_failed (h : a.written = .failed) : l.writeBuffer a = l := by
  rw [writeBuffer, h]

/-- A write that fits keeps what is in the buffer when it is made. -/
theorem writeBuffer_kept (h : l.Kept) {event : Bool} (hfits : l.WriteFits l.buffer a event) :
    ((l.writeBuffer a).behind event a).Kept := by
  rw [behind_kept]
  cases hw : a.written with
  | took n =>
      obtain ⟨hn, hnul⟩ := hfits.took n hw
      rw [writeBuffer_all hw hn hnul]
      exact ⟨(List.append_nil _).trans h.conserved, fun hp => absurd hp Bool.false_ne_true⟩
  | again =>
      rw [writeBuffer_again hw]
      refine ⟨h.conserved, fun hp => ?_⟩
      obtain ⟨hhas, hstays⟩ := hfits.again hw (isEmpty_ne.1 hp)
      exact ⟨Bool.or_eq_true_iff.2 hhas, hstays⟩
  | failed =>
      rw [writeBuffer_failed hw]
      exact ⟨h.conserved, fun hp => ⟨h.registered hp, hfits.failed hw hp⟩⟩

/-- A write that does not fit loses something or leaves the logger alone with it. -/
theorem writeBuffer_breaks (h : l.Kept) {event : Bool} (hfits : ¬l.WriteFits l.buffer a event) :
    ¬((l.writeBuffer a).behind event a).Kept := by
  rw [behind_kept]
  rintro ⟨hconserved, hregistered⟩
  refine hfits ⟨fun n hw => ?_, fun hw hne => ?_, fun hw hp => ?_⟩
  · by_contra hpart
    obtain ⟨hsame, hempty, hshort⟩ := writeBuffer_part hw hpart
    rw [hempty, hsame, List.append_nil, ← h.conserved] at hconserved
    rw [hconserved, List.length_append] at hshort
    exact Nat.lt_irrefl _ hshort
  · rw [writeBuffer_again hw] at hregistered
    obtain ⟨hhas, hstays⟩ := hregistered (isEmpty_ne.2 hne)
    exact ⟨Bool.or_eq_true_iff.1 hhas, hstays⟩
  · rw [writeBuffer_failed hw] at hregistered
    exact (hregistered hp).2

/-! ## Every event -/

theorem writeFits_added {text : Bytes} {event : Bool} :
    (l.added line).WriteFits text a event ↔ l.WriteFits text a event :=
  ⟨fun h => ⟨h.took, h.again, h.failed⟩, fun h => ⟨h.took, h.again, h.failed⟩⟩

/-- Both events put a line in the buffer, which is the empty line for a write event, and write it
if the log is open. -/
theorem step_eq (l : FileLogger) (e : LoggerEvent) : ∃ line a event,
    l.step e = some (if l.log then ((l.added line).writeBuffer a).behind event a
      else l.added line) ∧
    (l.Fits e ↔ (l.log = true → (l.added line).WriteFits (l.added line).buffer a event)) := by
  cases e with
  | writeLogLine line a =>
      refine ⟨line, a, false, ?_, ?_⟩
      · rw [step, writeLogLine_eq]
        rfl
      · rw [writeFits_added]
        exact Iff.rfl
  | handleEvent a =>
      refine ⟨[], a, true, ?_, ?_⟩
      · rw [step, handleEvent_eq, added_nil]
        rfl
      · rw [added_nil]
        exact Iff.rfl

theorem Kept.added (h : l.Kept) (line : Bytes) : (l.added line).Kept := by
  refine ⟨?_, h.registered⟩
  rw [FileLogger.added, ← h.conserved]
  exact (List.append_assoc ..).symm

theorem kept_new (log : Bool) : (new log).Kept := ⟨rfl, fun h => h⟩

theorem Kept.step {e : LoggerEvent} {l' : FileLogger} (h : l.Kept) (hfits : l.Fits e)
    (hstep : l.step e = some l') : l'.Kept := by
  obtain ⟨line, a, event, heq, hiff⟩ := step_eq l e
  obtain rfl := Option.some_inj.1 (heq.symm.trans hstep)
  by_cases hopen : l.log = true
  · rw [if_pos hopen]
    exact writeBuffer_kept (h.added line) (hiff.1 hfits hopen)
  · rw [if_neg hopen]
    exact h.added line

theorem Kept.breaks {e : LoggerEvent} (h : l.Kept) (hfits : ¬l.Fits e) :
    ∃ l', l.step e = some l' ∧ ¬l'.Kept := by
  obtain ⟨line, a, event, heq, hiff⟩ := step_eq l e
  obtain ⟨hopen, hnot⟩ := Classical.not_imp.1 (mt hiff.2 hfits)
  refine ⟨_, heq, ?_⟩
  rw [if_pos hopen]
  exact writeBuffer_breaks (h.added line) hnot

end FileLogger

/-! ## Runs -/

theorem log_kept (log : Bool) (events : List LoggerEvent) :
    Runs.Throughout FileLogger.step (FileLogger.new log) events FileLogger.Kept ↔
      Runs.EachStep FileLogger.step (FileLogger.new log) events FileLogger.Fits :=
  Runs.throughout_iff (FileLogger.kept_new log) id FileLogger.Kept.step FileLogger.Kept.breaks
    events

/-- Of a line of four bytes the first is written. -/
def shortWrite : List LoggerEvent :=
  [.writeLogLine (str "abc\n") ⟨.took 1, true, true⟩]

/-- The line cannot be written, and neither can it when the event comes. -/
def againTwice : List LoggerEvent :=
  [.writeLogLine (str "abc\n") ⟨.again, true, true⟩, .handleEvent ⟨.again, true, true⟩]

theorem log_not_kept :
    ¬Runs.Throughout FileLogger.step (FileLogger.new true) shortWrite FileLogger.Kept ∧
      ¬Runs.Throughout FileLogger.step (FileLogger.new true) againTwice FileLogger.Kept := by
  have hshort : Runs.run FileLogger.step (FileLogger.new true) shortWrite =
      some ⟨true, [], true, str "a", str "abc\n", false⟩ := by
    decide
  have hagain : Runs.run FileLogger.step (FileLogger.new true) againTwice =
      some ⟨true, str "abc\n", false, [], str "abc\n", true⟩ := by
    decide
  refine ⟨fun h => ?_, fun h => ?_⟩
  · exact absurd (h _ _ (List.prefix_refl _) hshort).conserved (by decide)
  · exact absurd ((h _ _ (List.prefix_refl _) hagain).registered rfl) Bool.false_ne_true

end Hottpd
