import Hottpd.Modules.CgiPipe
import Hottpd.Proofs.CgiOrder
import Hottpd.Proofs.Kept
import Mathlib.Data.List.Nodup

/-!
# The output of a process

What a child has written is in its pipe or in the buffer of its request, at every
moment and in every run: nobody reads from a pipe but its request, and nobody writes
into it but its child. The body that is queued in the end is the buffer, so what is
missing from it is what was left in the pipe, and the only thing that ends a request
is the hang-up.
-/

namespace Hottpd

open Bytes Runs

variable {env : Env} {cfg : CgiConfig} {os : CgiOs} {v v' : CgiVars} {cr cr' : CGIRequest}
  {child : Nat → Child} {bodies : List (Nat × Bytes)} {f f' : PipeServer} {id n : Nat}

/-! ## Requests come and go -/

/-- The requests have numbers of their own. -/
structure CgiVars.Numbered (v : CgiVars) : Prop where
  distinct : (v.live.map CGIRequest.id).Nodup
  below : ∀ cr ∈ v.live, cr.id < v.made

/-- Requests have been destroyed, and new ones constructed. -/
structure CgiVars.Grows (v v' : CgiVars) : Prop where
  numbered : v.Numbered → v'.Numbered
  made : v.made ≤ v'.made
  live : ∀ cr ∈ v'.live, cr ∈ v.live ∨
    (v.made ≤ cr.id ∧ cr.rbuf = [] ∧ cr.isOpen = true ∧ cr.done = false)
  aborted : v'.aborted = v.aborted

theorem CgiVars.Numbered.eq (h : v.Numbered) (hcr : cr ∈ v.live) (hcr' : cr' ∈ v.live)
    (hid : cr.id = cr'.id) : cr = cr' :=
  List.inj_on_of_nodup_map h.distinct hcr hcr' hid

theorem CgiVars.Grows.refl (v : CgiVars) : v.Grows v :=
  ⟨fun hn => hn, Nat.le_refl _, fun _ hcr => Or.inl hcr, rfl⟩

theorem CgiVars.Grows.trans {v'' : CgiVars} (h : v.Grows v') (h' : v'.Grows v'') :
    v.Grows v'' := by
  refine ⟨fun hn => h'.numbered (h.numbered hn), Nat.le_trans h.made h'.made, fun cr hcr => ?_,
    h'.aborted.trans h.aborted⟩
  rcases h'.live cr hcr with hold | ⟨hmade, hnew⟩
  · exact h.live cr hold
  · exact Or.inr ⟨Nat.le_trans h.made hmade, hnew⟩

/-- A request is constructed. -/
theorem CgiVars.Grows.start (command : List Bytes) : v.Grows { v with
    live := v.live ++ [⟨v.made, command, [], true, false⟩]
    stored := some v.made
    made := v.made + 1
    calls := v.calls + 1 } where
  numbered hn := by
    refine ⟨?_, fun cr hcr => ?_⟩
    · rw [List.map_append, List.nodup_append]
      refine ⟨hn.distinct, List.nodup_singleton _, fun a ha b hb => ?_⟩
      obtain ⟨cr, hcr, rfl⟩ := List.mem_map.1 ha
      have hb' : b = v.made := List.mem_singleton.1 hb
      have hlt := hn.below cr hcr
      omega
    · rcases List.mem_append.1 hcr with hold | hnew
      · exact Nat.lt_succ_of_lt (hn.below cr hold)
      · rw [List.mem_singleton.1 hnew]
        exact Nat.lt_succ_self _
  made := Nat.le_succ _
  live cr hcr := by
    rcases List.mem_append.1 hcr with hold | hnew
    · exact Or.inl hold
    · rw [List.mem_singleton.1 hnew]
      exact Or.inr ⟨Nat.le_refl _, rfl, rfl, rfl⟩
  aborted := rfl

/-- The request that is stored is destroyed. -/
theorem CgiVars.Grows.flushed : v.Grows (onFlushed v) := by
  unfold onFlushed
  split
  · exact .refl v
  · refine ⟨fun hn => ⟨?_, fun cr hcr => ?_⟩, Nat.le_refl _, fun cr hcr => ?_, rfl⟩
    · exact (List.filter_sublist.map CGIRequest.id).nodup hn.distinct
    · exact hn.below cr (List.mem_of_mem_filter hcr)
    · exact Or.inl (List.mem_of_mem_filter hcr)

theorem grows_onPreRequest (uri file : Bytes) :
    v.Grows (onPreRequest env cfg os uri file v).1 := by
  have hcalls : v.Grows { v with calls := v.calls + 1 } :=
    ⟨fun hn => ⟨hn.distinct, hn.below⟩, Nat.le_refl _, fun _ hcr => Or.inl hcr, rfl⟩
  rcases onPreRequest_cases env cfg os uri file v with
    heq | ⟨code, text, heq⟩ | heq | ⟨-, command, heq⟩
  · rw [heq]
    exact .refl v
  · rw [heq]
    exact hcalls
  · rw [heq]
    exact hcalls
  · rw [heq]
    exact .start command

theorem onlyCgi_keep (v : CgiVars) : ∀ m ∈ onlyCgi env cfg os, HooksKeep v.Grows m := by
  intro m hm
  rw [List.mem_singleton.1 hm]
  exact ⟨fun _ c _ _ _ file h => h.trans (grows_onPreRequest c.uri file),
    fun _ _ h => h.trans .flushed⟩

theorem grows_client {ev : Event} (hev : ev.isModule = false) (s : St CgiVars) :
    s.mods.Grows (cgiEvent env cfg os ev s).mods := by
  refine handleEvent_keeps (onlyCgi_keep s.mods) ev (fun k hk => ?_) s (.refl s.mods)
  rw [hk] at hev
  cases hev

theorem grows_modCalls (calls : List ModCall) (s : St CgiVars) :
    v.Grows (modCalls env (onlyCgi env cfg os) (recheck env (onlyCgi env cfg os))
      calls { s with mods := v }).mods :=
  modCalls_keeps (onlyCgi_keep v) (recheck_keeps (onlyCgi_keep v)) calls { s with mods := v }
    (.refl v)

/-! ## The pipe and the buffer -/

/-- What has been reported of a child is true of it still. -/
def Child.Heard (c : Child) : Prop :=
  ∀ events, c.reported = some events → events.epollerr = false ∧ events.epollout = false ∧
    (events.epollhup = true → c.exited = true) ∧ (events.epollhup = false → c.unread ≠ [])

/-- Where the output of the children is. -/
structure Piped (v : CgiVars) (child : Nat → Child) (bodies : List (Nat × Bytes)) : Prop where
  numbered : v.Numbered
  alive : v.aborted = false
  fresh : ∀ id, v.made ≤ id → child id = Child.new
  opened : ∀ cr ∈ v.live, cr.isOpen = !cr.done
  reading : ∀ cr ∈ v.live, cr.done = false →
    cr.rbuf ++ (child cr.id).unread = (child cr.id).written ∧ ∀ body, (cr.id, body) ∉ bodies
  queued : ∀ id body, (id, body) ∈ bodies → id < v.made ∧ (child id).exited = true ∧
    body ++ (child id).unread = (child id).written
  once : (bodies.map Prod.fst).Nodup
  clean : ∀ id, 0 ∉ (child id).unread
  heard : ∀ id, (child id).Heard

/-- A new request has a new pipe. -/
theorem Piped.grows (h : Piped v child bodies) (hv : v.Grows v') : Piped v' child bodies where
  numbered := hv.numbered h.numbered
  alive := hv.aborted.trans h.alive
  fresh id hid := h.fresh id (Nat.le_trans hv.made hid)
  opened cr hcr := by
    rcases hv.live cr hcr with hold | ⟨-, -, hopen, hdone⟩
    · exact h.opened cr hold
    · rw [hopen, hdone]
      rfl
  reading cr hcr hdone := by
    rcases hv.live cr hcr with hold | ⟨hmade, hempty, -, -⟩
    · exact h.reading cr hold hdone
    · refine ⟨?_, fun body hbody => ?_⟩
      · rw [h.fresh cr.id hmade, hempty]
        rfl
      · have hlt := (h.queued cr.id body hbody).1
        omega
  queued id body hbody :=
    ⟨Nat.lt_of_lt_of_le (h.queued id body hbody).1 hv.made, (h.queued id body hbody).2⟩
  once := h.once
  clean := h.clean
  heard := h.heard

/-- One child among the others. -/
def setAt (child : Nat → Child) (id : Nat) (c : Child) : Nat → Child :=
  fun d => if d = id then c else child d

theorem setAt_self (c : Child) : setAt child id c id = c := if_pos rfl

theorem setAt_ne {d : Nat} (h : d ≠ id) (c : Child) : setAt child id c d = child d := if_neg h

/-- A child goes on: it may write `data`, unless it has exited, and it may exit. -/
structure Child.GoesOn (c c' : Child) (data : Bytes) : Prop where
  written : c'.written = c.written ++ data
  unread : c'.unread = c.unread ++ data
  silent : c.exited = true → data = []
  exited : c.exited = true → c'.exited = true
  clean : 0 ∉ data
  heard : c.Heard → c'.Heard

theorem Child.goesOn_write {c : Child} {data : Bytes} (hrunning : c.exited = false)
    (hclean : 0 ∉ data) :
    c.GoesOn { c with written := c.written ++ data, unread := c.unread ++ data } data := by
  refine ⟨rfl, rfl, fun hexited => ?_, fun hexited => hexited, hclean, fun h events hevents => ?_⟩
  · rw [hrunning] at hexited
    cases hexited
  · obtain ⟨herr, hout, hexited, hunread⟩ := h events hevents
    exact ⟨herr, hout, hexited,
      fun hhup => List.append_ne_nil_of_left_ne_nil (hunread hhup) data⟩

/-- A child that has written nothing. -/
theorem Child.goesOn_of_eq {c c' : Child} (hwritten : c'.written = c.written)
    (hunread : c'.unread = c.unread) (hexited : c.exited = true → c'.exited = true)
    (hheard : c.Heard → c'.Heard) : c.GoesOn c' [] := by
  refine ⟨?_, ?_, fun _ => rfl, hexited, List.not_mem_nil, hheard⟩
  · rw [hwritten, List.append_nil]
  · rw [hunread, List.append_nil]

theorem Child.goesOn_exit (c : Child) : c.GoesOn { c with exited := true } [] := by
  refine goesOn_of_eq rfl rfl (fun _ => rfl) fun h events hevents => ?_
  obtain ⟨herr, hout, -, hunread⟩ := h events hevents
  exact ⟨herr, hout, fun _ => rfl, hunread⟩

theorem Child.goesOn_drop (c : Child) : c.GoesOn { c with reported := none } [] :=
  goesOn_of_eq rfl rfl (fun hexited => hexited) fun _ _ hnone => by cases hnone

/-- What is reported of a child holds of it: it has exited, or there is something to read. -/
theorem Child.goesOn_poll (c : Child) : c.GoesOn c.poll [] := by
  unfold Child.poll
  split
  · next hready =>
      refine goesOn_of_eq rfl rfl (fun hexited => hexited) fun _ events hevents => ?_
      cases hevents
      refine ⟨rfl, rfl, fun hhup => hhup, fun hhup => hready.resolve_left ?_⟩
      exact Bool.eq_false_iff.1 hhup
  · exact goesOn_of_eq rfl rfl (fun hexited => hexited) fun h => h

theorem Piped.goesOn (h : Piped v child bodies) {c : Child} {data : Bytes} (hid : id < v.made)
    (hc : (child id).GoesOn c data) : Piped v (setAt child id c) bodies where
  numbered := h.numbered
  alive := h.alive
  fresh d hd := by
    rw [setAt_ne (by omega)]
    exact h.fresh d hd
  opened := h.opened
  reading cr hcr hdone := by
    obtain ⟨hread, hnone⟩ := h.reading cr hcr hdone
    by_cases hd : cr.id = id
    · subst hd
      rw [setAt_self, hc.unread, hc.written, ← hread, List.append_assoc]
      exact ⟨rfl, hnone⟩
    · rw [setAt_ne hd]
      exact ⟨hread, hnone⟩
  queued d body hbody := by
    obtain ⟨hlt, hexited, hbytes⟩ := h.queued d body hbody
    by_cases hd : d = id
    · subst hd
      rw [setAt_self, hc.unread, hc.written, hc.silent hexited, List.append_nil, List.append_nil]
      exact ⟨hlt, hc.exited hexited, hbytes⟩
    · rw [setAt_ne hd]
      exact ⟨hlt, hexited, hbytes⟩
  once := h.once
  clean d := by
    by_cases hd : d = id
    · subst hd
      rw [setAt_self, hc.unread, List.mem_append]
      exact fun hmem => hmem.elim (h.clean d) hc.clean
    · rw [setAt_ne hd]
      exact h.clean d
  heard d := by
    by_cases hd : d = id
    · rw [hd, setAt_self]
      exact hc.heard (h.heard id)
    · rw [setAt_ne hd]
      exact h.heard d

/-- The request behind a pipe handles an event. -/
def CgiVars.replaced (id : Nat) (cr : CGIRequest) (v : CgiVars) : CgiVars :=
  { v with
    calls := v.calls + 1
    live := v.live.map fun r => if r.id = id then cr else r }

theorem CgiVars.mem_replaced {r : CGIRequest} (h : r ∈ (v.replaced id cr).live) :
    r = cr ∨ (r ∈ v.live ∧ r.id ≠ id) := by
  obtain ⟨r', hr', heq⟩ := List.mem_map.1 h
  split at heq
  · exact Or.inl heq.symm
  · next hne => exact Or.inr (heq ▸ ⟨hr', hne⟩)

theorem CgiVars.Numbered.replaced (h : v.Numbered) (hid : cr.id = id) (hlt : id < v.made) :
    (v.replaced id cr).Numbered := by
  refine ⟨?_, fun r hr => ?_⟩
  · have hids : (v.replaced id cr).live.map CGIRequest.id = v.live.map CGIRequest.id := by
      show (v.live.map _).map CGIRequest.id = _
      rw [List.map_map]
      refine List.map_congr_left fun r _ => ?_
      show (if r.id = id then cr else r).id = r.id
      split
      · next heq => rw [hid, heq]
      · rfl
    rw [hids]
    exact h.distinct
  · rcases CgiVars.mem_replaced hr with rfl | ⟨hold, -⟩
    · exact hid ▸ hlt
    · exact h.below r hold

/-- A request reads from its pipe. -/
theorem Piped.read (h : Piped v child bodies) (hcr : cr ∈ v.live) (hdone : cr.done = false)
    {taken left : Bytes} (hsplit : (child cr.id).unread = taken ++ left) :
    Piped (v.replaced cr.id { cr with rbuf := cr.rbuf ++ taken })
      (setAt child cr.id { child cr.id with unread := left, reported := none }) bodies where
  numbered := h.numbered.replaced rfl (h.numbered.below cr hcr)
  alive := h.alive
  fresh d hd := by
    have hlt := h.numbered.below cr hcr
    have hd' : v.made ≤ d := hd
    rw [setAt_ne (by omega)]
    exact h.fresh d hd'
  opened r hr := by
    rcases CgiVars.mem_replaced hr with rfl | ⟨hold, -⟩
    · exact h.opened cr hcr
    · exact h.opened r hold
  reading r hr hundone := by
    rcases CgiVars.mem_replaced hr with rfl | ⟨hold, hne⟩
    · obtain ⟨hread, hnone⟩ := h.reading cr hcr hdone
      refine ⟨?_, hnone⟩
      rw [setAt_self]
      show (cr.rbuf ++ taken) ++ left = _
      rw [List.append_assoc, ← hsplit]
      exact hread
    · rw [setAt_ne hne]
      exact h.reading r hold hundone
  queued d body hbody := by
    have hne : d ≠ cr.id := fun hd => (h.reading cr hcr hdone).2 body (hd ▸ hbody)
    rw [setAt_ne hne]
    exact h.queued d body hbody
  once := h.once
  clean d := by
    by_cases hd : d = cr.id
    · rw [hd, setAt_self]
      have hclean := h.clean cr.id
      rw [hsplit] at hclean
      exact fun hmem => hclean (List.mem_append_right taken hmem)
    · rw [setAt_ne hd]
      exact h.clean d
  heard d := by
    by_cases hd : d = cr.id
    · rw [hd, setAt_self]
      exact fun _ hnone => by cases hnone
    · rw [setAt_ne hd]
      exact h.heard d

/-- A request hears that its child has hung up. -/
theorem Piped.close (h : Piped v child bodies) (hcr : cr ∈ v.live) (hdone : cr.done = false)
    (hexited : (child cr.id).exited = true) :
    Piped (v.replaced cr.id { cr with isOpen := false, done := true })
      (setAt child cr.id { child cr.id with reported := none })
      (bodies ++ [(cr.id, cr.rbuf)]) where
  numbered := h.numbered.replaced rfl (h.numbered.below cr hcr)
  alive := h.alive
  fresh d hd := by
    have hlt := h.numbered.below cr hcr
    have hd' : v.made ≤ d := hd
    rw [setAt_ne (by omega)]
    exact h.fresh d hd'
  opened r hr := by
    rcases CgiVars.mem_replaced hr with rfl | ⟨hold, -⟩
    · rfl
    · exact h.opened r hold
  reading r hr hundone := by
    rcases CgiVars.mem_replaced hr with rfl | ⟨hold, hne⟩
    · cases hundone
    · obtain ⟨hread, hnone⟩ := h.reading r hold hundone
      rw [setAt_ne hne]
      refine ⟨hread, fun body hbody => ?_⟩
      rcases List.mem_append.1 hbody with hbefore | hnew
      · exact hnone body hbefore
      · exact hne (congrArg Prod.fst (List.mem_singleton.1 hnew))
  queued d body hbody := by
    rcases List.mem_append.1 hbody with hbefore | hnew
    · have hne : d ≠ cr.id := fun hd => (h.reading cr hcr hdone).2 body (hd ▸ hbefore)
      rw [setAt_ne hne]
      exact h.queued d body hbefore
    · cases List.mem_singleton.1 hnew
      rw [setAt_self]
      exact ⟨h.numbered.below cr hcr, hexited, (h.reading cr hcr hdone).1⟩
  once := by
    rw [List.map_append, List.nodup_append]
    refine ⟨h.once, List.nodup_singleton _, fun a ha b hb => ?_⟩
    obtain ⟨⟨d, body⟩, hp, rfl⟩ := List.mem_map.1 ha
    rw [List.mem_singleton.1 hb]
    intro hd
    have hsame : d = cr.id := hd
    exact (h.reading cr hcr hdone).2 body (hsame ▸ hp)
  clean d := by
    by_cases hd : d = cr.id
    · rw [hd, setAt_self]
      exact h.clean cr.id
    · rw [setAt_ne hd]
      exact h.clean d
  heard d := by
    by_cases hd : d = cr.id
    · rw [hd, setAt_self]
      exact fun _ hnone => by cases hnone
    · rw [setAt_ne hd]
      exact h.heard d

/-! ## One step -/

abbrev PipeServer.Piped (f : PipeServer) : Prop := Hottpd.Piped f.conn.mods f.child f.bodies

/-- What a step can be, with what held before it. Something happens on the connection's own
socket; a child goes on, or what was reported of it changes; or the engine calls the handler of
the request `cr`, which reads or, whatever is left in the pipe, answers. -/
inductive PipeServer.Takes (env : Env) (cfg : CgiConfig) (f : PipeServer) :
    PipeEvent → PipeServer → Prop where
  | client {os : CgiOs} {ev : Event} (hev : ev.isModule = false) :
      Takes env cfg f (.client os ev) { f with conn := cgiEvent env cfg os ev f.conn }
  | child {e : PipeEvent} {id : Nat} {c : Child} {data : Bytes} (hid : id < f.conn.mods.made)
      (hgo : (f.child id).GoesOn c data) (hquiet : f.hangsUpUnread e = false) :
      Takes env cfg f e { f with child := setAt f.child id c }
  | reads {os os' : CgiOs} {n : Nat} {cr : CGIRequest} {taken left : Bytes}
      (hcr : cr ∈ f.conn.mods.live) (hdone : cr.done = false)
      (hsplit : (f.child cr.id).unread = taken ++ left)
      (hquiet : f.hangsUpUnread (.dispatch os cr.id n) = false)
      (hover : f.overtaken env (.dispatch os cr.id n) = overtakes env os' (.module 0) f.conn)
      (hevent : cgiEvent env cfg os' (.module 0) f.conn = { f.conn with
        mods := f.conn.mods.replaced cr.id { cr with rbuf := cr.rbuf ++ taken } }) :
      Takes env cfg f (.dispatch os cr.id n) ⟨{ f.conn with
          mods := f.conn.mods.replaced cr.id { cr with rbuf := cr.rbuf ++ taken } },
        setAt f.child cr.id { f.child cr.id with unread := left, reported := none },
        f.bodies⟩
  | answers {os os' : CgiOs} {n : Nat} {cr : CGIRequest} (hcr : cr ∈ f.conn.mods.live)
      (hdone : cr.done = false) (hexited : (f.child cr.id).exited = true)
      (hleft : f.hangsUpUnread (.dispatch os cr.id n) = false ↔ (f.child cr.id).unread = [])
      (hover : f.overtaken env (.dispatch os cr.id n) = overtakes env os' (.module 0) f.conn)
      (hevent : cgiEvent env cfg os' (.module 0) f.conn =
        modCalls env (onlyCgi env cfg os') (recheck env (onlyCgi env cfg os')) (responseCalls cr)
          { f.conn with
            mods := f.conn.mods.replaced cr.id { cr with isOpen := false, done := true } }) :
      Takes env cfg f (.dispatch os cr.id n)
        ⟨modCalls env (onlyCgi env cfg os') (recheck env (onlyCgi env cfg os')) (responseCalls cr)
          { f.conn with
            mods := f.conn.mods.replaced cr.id { cr with isOpen := false, done := true } },
        setAt f.child cr.id { f.child cr.id with reported := none },
        f.bodies ++ [(cr.id, cr.rbuf)]⟩

/-- The engine calls the handler of the one request that has this number. -/
theorem onEvent_found (h : v.Numbered) (halive : v.aborted = false) (hcr : cr ∈ v.live)
    (hopen : cr.isOpen = true) {ev : CgiEvent} {calls : List ModCall}
    (heq : cr.handleEvent ev = some (cr', calls)) :
    onEvent (os.delivers cr.id ev) v = (v.replaced cr.id cr', calls) := by
  have hfind : v.live.find? (fun r => decide (r.id = cr.id ∧ r.isOpen = true)) = some cr := by
    cases hr : v.live.find? (fun r => decide (r.id = cr.id ∧ r.isOpen = true)) with
    | none =>
        have hnot := List.find?_eq_none.1 hr cr hcr
        exact absurd (decide_eq_true ⟨rfl, hopen⟩) hnot
    | some r =>
        have hsame : r.id = cr.id ∧ r.isOpen = true := by
          simpa using List.find?_some hr
        rw [h.eq (List.mem_of_find?_eq_some hr) hcr hsame.1]
  have hevent : (os.delivers cr.id ev).event v.calls = (cr.id, ev) := rfl
  unfold onEvent
  rw [hevent]
  dsimp only
  rw [if_neg (Bool.eq_false_iff.1 halive), hfind]
  dsimp only
  rw [heq]
  rfl

theorem PipeServer.handle_eq {ev : CgiEvent} {calls : List ModCall}
    (hon : onEvent (os.delivers id ev) f.conn.mods = (v, calls)) :
    f.handle env cfg os id ev =
      ⟨modCalls env (onlyCgi env cfg (os.delivers id ev))
        (recheck env (onlyCgi env cfg (os.delivers id ev))) calls { f.conn with mods := v },
      f.child, f.bodies ++ bodiesOf id calls⟩ := by
  rw [PipeServer.handle, cgiEvent_module, hon]

theorem watches_iff : f.watches id = true ↔ ∃ cr ∈ f.conn.mods.live, cr.id = id ∧ cr.isOpen := by
  rw [PipeServer.watches, List.any_eq_true]
  exact exists_congr fun cr => and_congr_right fun _ => decide_eq_true_iff

/-- A hang-up goes before everything else. -/
theorem incoming_hangup {events : EpollEvents} (h : events.epollhup = true) :
    f.incoming id n events = (.error, { f.child id with reported := none }) := by
  rw [PipeServer.incoming, dispatchEvent, if_pos h]

theorem incoming_input {events : EpollEvents} (hhup : events.epollhup = false)
    (herr : events.epollerr = false) (hout : events.epollout = false)
    (hunread : (f.child id).unread ≠ []) :
    f.incoming id n events =
      (.read (.data ((f.child id).unread.take ((f.child id).readLength n))),
        { f.child id with
          unread := (f.child id).unread.drop ((f.child id).readLength n)
          reported := none }) := by
  rw [PipeServer.incoming, dispatchEvent, hhup, herr, hout]
  show (CgiEvent.read (Child.read n { f.child id with reported := none }).1, _) = _
  rw [Child.read, if_neg hunread]
  rfl

/-- The handler of a pipe is called for what was reported of its child. -/
theorem PipeServer.Piped.dispatch_takes (h : f.Piped) {events : EpollEvents}
    (hrep : (f.child id).reported = some events) (hwatch : f.watches id = true) :
    f.Takes env cfg (.dispatch os id n)
      ((f.setChild id (f.incoming id n events).2).handle env cfg os id
        (f.incoming id n events).1) := by
  obtain ⟨herr, hout, hexited, hunread⟩ := h.heard id events hrep
  obtain ⟨cr, hcr, rfl, hopen⟩ := watches_iff.1 hwatch
  have hdone : cr.done = false := by
    have hop := h.opened cr hcr
    rw [hopen] at hop
    simpa using hop
  have hover : ∀ ev, (f.incoming cr.id n events).1 = ev →
      f.overtaken env (.dispatch os cr.id n)
        = overtakes env (os.delivers cr.id ev) (.module 0) f.conn := by
    intro ev hev
    simp only [PipeServer.overtaken, hrep, hwatch, hev]
    simp
  cases hhup : events.epollhup with
  | true =>
      have hin : f.incoming cr.id n events = (.error, { f.child cr.id with reported := none }) :=
        incoming_hangup hhup
      have hon := @onEvent_found os f.conn.mods cr _ h.numbered h.alive hcr hopen _ _
        (cr.handleEvent_hangup hopen)
      have hevent := @cgiEvent_module env cfg (os.delivers cr.id .error) f.conn
      rw [hon] at hevent
      rw [hin, PipeServer.handle_eq (f := f.setChild cr.id _) hon]
      refine .answers hcr hdone (hexited hhup) ?_ (hover .error (by rw [hin])) hevent
      simp only [PipeServer.hangsUpUnread, hrep]
      simp [hwatch, hhup]
  | false =>
      have hin := @incoming_input f cr.id n events hhup herr hout (hunread hhup)
      have hclean : 0 ∉ (f.child cr.id).unread.take ((f.child cr.id).readLength n) :=
        fun hmem => h.clean cr.id (List.mem_of_mem_take hmem)
      have hread : cr.handleEvent (.read (.data
          ((f.child cr.id).unread.take ((f.child cr.id).readLength n))))
          = some ({ cr with rbuf := cr.rbuf
              ++ (f.child cr.id).unread.take ((f.child cr.id).readLength n) }, []) := by
        rw [CGIRequest.handleEvent, cstr_eq_self hclean]
      have hon := @onEvent_found os f.conn.mods cr _ h.numbered h.alive hcr hopen _ _ hread
      have hevent := @cgiEvent_module env cfg (os.delivers cr.id (.read (.data
        ((f.child cr.id).unread.take ((f.child cr.id).readLength n))))) f.conn
      rw [hon] at hevent
      rw [hin, PipeServer.handle_eq (f := f.setChild cr.id _) hon]
      have hbodies : f.bodies ++ bodiesOf cr.id [] = f.bodies := List.append_nil _
      show f.Takes env cfg (.dispatch os cr.id n) ⟨_, _, f.bodies ++ bodiesOf cr.id []⟩
      rw [hbodies]
      refine .reads hcr hdone (List.take_append_drop _ _).symm ?_ (hover _ (by rw [hin])) hevent
      simp only [PipeServer.hangsUpUnread, hrep]
      simp [hhup]

theorem PipeServer.Piped.takes {e : PipeEvent} (h : f.Piped)
    (hstep : f.step env cfg e = some f') : f.Takes env cfg e f' := by
  cases e with
  | client os ev =>
      rw [PipeServer.step] at hstep
      split at hstep
      · cases hstep
      · next hev =>
          cases hstep
          exact .client (Bool.eq_false_iff.2 hev)
  | childWrites id data =>
      rw [PipeServer.step] at hstep
      split at hstep
      · next hcan =>
          cases hstep
          exact .child hcan.1 (Child.goesOn_write hcan.2.1 hcan.2.2) rfl
      · cases hstep
  | childExits id =>
      rw [PipeServer.step] at hstep
      split at hstep
      · next hcan =>
          cases hstep
          exact .child hcan.1 (f.child id).goesOn_exit rfl
      · cases hstep
  | poll id =>
      rw [PipeServer.step] at hstep
      split at hstep
      · next hwatch =>
          cases hstep
          obtain ⟨cr, hcr, rfl, -⟩ := watches_iff.1 hwatch
          exact .child (h.numbered.below cr hcr) (f.child cr.id).goesOn_poll rfl
      · cases hstep
  | dispatch os id n =>
      rw [PipeServer.step] at hstep
      cases hrep : (f.child id).reported with
      | none =>
          rw [hrep] at hstep
          cases hstep
      | some events =>
          rw [hrep] at hstep
          dsimp only at hstep
          cases hwatch : f.watches id with
          | true =>
              rw [hwatch, if_pos rfl, Option.some.injEq] at hstep
              rw [← hstep]
              exact h.dispatch_takes hrep hwatch
          | false =>
              rw [hwatch] at hstep
              cases hstep
              have hlt : id < f.conn.mods.made := by
                by_contra hge
                rw [h.fresh id (Nat.le_of_not_lt hge)] at hrep
                cases hrep
              refine .child hlt (f.child id).goesOn_drop ?_
              simp only [PipeServer.hangsUpUnread, hrep]
              simp [hwatch]

theorem PipeServer.Piped.step {e : PipeEvent} (h : f.Piped)
    (hstep : f.step env cfg e = some f') : f'.Piped := by
  cases h.takes hstep with
  | client hev => exact h.grows (grows_client hev f.conn)
  | child hid hgo => exact h.goesOn hid hgo
  | reads hcr hdone hsplit => exact h.read hcr hdone hsplit
  | answers hcr hdone hexited =>
      exact (h.close hcr hdone hexited).grows (grows_modCalls _ f.conn)

/-- Nothing has been left in a pipe by a request that has been answered. -/
def PipeServer.Whole (f : PipeServer) : Prop :=
  ∀ id body, (id, body) ∈ f.bodies → (f.child id).unread = []

/-- What is left in the pipe of an answered request stays there. -/
theorem PipeServer.Piped.whole_iff {e : PipeEvent} (h : f.Piped)
    (hstep : f.step env cfg e = some f') :
    f'.Whole ↔ f.Whole ∧ f.hangsUpUnread e = false := by
  -- a step that leaves the bodies alone, and the pipes behind them
  have hsame : f'.bodies = f.bodies → f.hangsUpUnread e = false →
      (∀ id body, (id, body) ∈ f.bodies → (f'.child id).unread = (f.child id).unread) →
      (f'.Whole ↔ f.Whole ∧ f.hangsUpUnread e = false) := by
    intro hbodies hquiet hunread
    rw [and_iff_left hquiet, PipeServer.Whole, PipeServer.Whole, hbodies]
    exact forall₂_congr fun id body => imp_congr_right fun hbody => by
      rw [hunread id body hbody]
  cases h.takes hstep with
  | client hev => exact hsame rfl rfl fun _ _ _ => rfl
  | @child _ id c data hid hgo hquiet =>
      refine hsame rfl hquiet fun d body hbody => ?_
      show (setAt f.child id c d).unread = _
      by_cases hd : d = id
      · -- a child whose request has been answered has exited
        have hexited := (h.queued d body hbody).2.1
        rw [hd] at hexited
        rw [hd, setAt_self, hgo.unread, hgo.silent hexited, List.append_nil]
      · rw [setAt_ne hd]
  | @reads os os' n cr taken left hcr hdone hsplit hquiet =>
      refine hsame rfl hquiet fun d body hbody => ?_
      have hne : d ≠ cr.id := fun hd => (h.reading cr hcr hdone).2 body (hd ▸ hbody)
      exact congrArg Child.unread (setAt_ne hne _)
  | @answers os os' n cr hcr hdone hexited hleft =>
      have hdrop : ∀ d, (setAt f.child cr.id { f.child cr.id with reported := none } d).unread
          = (f.child d).unread := by
        intro d
        by_cases hd : d = cr.id
        · rw [hd, setAt_self]
        · rw [setAt_ne hd]
      rw [hleft]
      refine ⟨fun hall => ⟨fun d body hbody => ?_, ?_⟩, fun hall d body hbody => ?_⟩
      · rw [← hall d body (List.mem_append_left _ hbody)]
        exact (hdrop d).symm
      · rw [← hall cr.id cr.rbuf (List.mem_append_right _ (List.mem_singleton_self _))]
        exact (hdrop cr.id).symm
      · refine (hdrop d).trans ?_
        rcases List.mem_append.1 hbody with hbefore | hnew
        · exact hall.1 d body hbefore
        · cases List.mem_singleton.1 hnew
          exact hall.2

/-- Every request has not been answered yet or has its body in the queue. -/
structure PipeServer.Attended (f : PipeServer) : Prop where
  orderly : Orderly f.conn
  kept : ∀ id < f.conn.mods.made,
    (∃ cr ∈ f.conn.mods.live, cr.id = id ∧ cr.done = false) ∨ ∃ body, (id, body) ∈ f.bodies

/-- `v` is what a connection has, and `w` what the handler of a pipe has made of it. -/
theorem kept_of_survives {w : CgiVars} {bodies' : List (Nat × Bytes)} (hn : v.Numbered)
    (hs : Survives v v') (hg : w.Grows v') (hw : w.Numbered) (hmade : w.made = v.made)
    (hbodies : ∀ p ∈ bodies, p ∈ bodies')
    (hlive : ∀ cr ∈ w.live, cr ∈ v.live ∨ cr.done = false ∨ ∃ body, (cr.id, body) ∈ bodies')
    (hkept : ∀ id < v.made,
      (∃ cr ∈ v.live, cr.id = id ∧ cr.done = false) ∨ ∃ body, (id, body) ∈ bodies) :
    ∀ id < v'.made,
      (∃ cr ∈ v'.live, cr.id = id ∧ cr.done = false) ∨ ∃ body, (id, body) ∈ bodies' := by
  intro id hid
  by_cases hold : id < v.made
  · rcases hkept id hold with ⟨cr, hcr, rfl, hdone⟩ | ⟨body, hbody⟩
    · obtain ⟨cr', hcr', hsame⟩ := hs.undone cr hcr hdone
      rcases hg.live cr' hcr' with hthere | ⟨hnew, -⟩
      · rcases hlive cr' hthere with hv | hundone | hbody
        · rw [hn.eq hv hcr hsame] at hcr'
          exact Or.inl ⟨cr, hcr', rfl, hdone⟩
        · exact Or.inl ⟨cr', hcr', hsame, hundone⟩
        · exact Or.inr (hsame ▸ hbody)
      · omega
    · exact Or.inr ⟨body, hbodies _ hbody⟩
  · obtain ⟨cr', hcr', hsame⟩ := hs.made id (Nat.le_of_not_lt hold) hid
    rcases hg.live cr' hcr' with hthere | ⟨-, -, -, hundone⟩
    · have hlt := hw.below cr' hthere
      omega
    · exact Or.inl ⟨cr', hcr', hsame, hundone⟩

theorem PipeServer.Attended.step {e : PipeEvent} (h : f.Attended) (hp : f.Piped)
    (ho : f.overtaken env e = false) (hstep : f.step env cfg e = some f') : f'.Attended := by
  cases hp.takes hstep with
  | @client os ev hev =>
      have hfollows := @Orderly.follows_event env cfg os f.conn h.orderly ev ho
      exact ⟨hfollows.orderly, kept_of_survives hp.numbered hfollows.survives
        (grows_client hev f.conn) hp.numbered rfl (fun _ hb => hb) (fun _ hcr => Or.inl hcr)
        h.kept⟩
  | child => exact ⟨h.orderly, h.kept⟩
  | @reads os os' n cr taken left hcr hdone hsplit hquiet hover hevent =>
      rw [hover] at ho
      have hfollows := @Orderly.follows_event env cfg os' f.conn h.orderly (.module 0) ho
      rw [hevent] at hfollows
      refine ⟨hfollows.orderly, kept_of_survives hp.numbered hfollows.survives (.refl _)
        (hp.numbered.replaced rfl (hp.numbered.below cr hcr)) rfl (fun _ hb => hb)
        (fun r hr => ?_) h.kept⟩
      rcases CgiVars.mem_replaced hr with rfl | ⟨hold, -⟩
      · exact Or.inr (Or.inl hdone)
      · exact Or.inl hold
  | @answers os os' n cr hcr hdone hexited hleft hover hevent =>
      rw [hover] at ho
      have hfollows := @Orderly.follows_event env cfg os' f.conn h.orderly (.module 0) ho
      rw [hevent] at hfollows
      refine ⟨hfollows.orderly, kept_of_survives hp.numbered hfollows.survives
        (grows_modCalls _ f.conn) (hp.numbered.replaced rfl (hp.numbered.below cr hcr)) rfl
        (fun _ hb => List.mem_append_left _ hb) (fun r hr => ?_) h.kept⟩
      rcases CgiVars.mem_replaced hr with rfl | ⟨hold, -⟩
      · exact Or.inr (Or.inr ⟨cr.rbuf, List.mem_append_right _ (List.mem_singleton_self _)⟩)
      · exact Or.inl hold

/-! ## Every run -/

theorem PipeServer.Piped.run : ∀ (es : List PipeEvent) {f : PipeServer}, f.Piped →
    PipeServer.run env cfg es f = some f' →
    f'.Piped ∧ (f'.Whole ↔ f.Whole ∧ PipeServer.never env cfg PipeServer.hangsUpUnread es f)
  | [], f, h, hrun => by
      cases hrun
      exact ⟨h, (and_iff_left eachStep_nil).symm⟩
  | e :: es, f, h, hrun => by
      rw [PipeServer.run, run_cons] at hrun
      obtain ⟨g, hstep, hrun⟩ := Option.bind_eq_some_iff.1 hrun
      obtain ⟨hpiped, hwhole⟩ := PipeServer.Piped.run es (h.step hstep) hrun
      refine ⟨hpiped, ?_⟩
      have hnever : PipeServer.never env cfg PipeServer.hangsUpUnread (e :: es) f ↔
          f.hangsUpUnread e = false ∧ PipeServer.never env cfg PipeServer.hangsUpUnread es g := by
        rw [PipeServer.never, eachStep_cons_iff, hstep]
        simp [PipeServer.never]
      rw [hwhole, h.whole_iff hstep, hnever, and_assoc]

theorem PipeServer.Attended.run {es : List PipeEvent} (h : f.Attended) (hp : f.Piped)
    (hnever : PipeServer.never env cfg (PipeServer.overtaken env) es f)
    (hrun : PipeServer.run env cfg es f = some f') : f'.Attended :=
  (EachStep.invariant (I := fun f : PipeServer => f.Attended ∧ f.Piped) hnever ⟨h, hp⟩
    (fun ⟨h, hp⟩ ho hstep => ⟨h.step hp ho hstep, hp.step hstep⟩) es f' (List.prefix_refl _)
    hrun).1

/-- A child that has exited with nothing left to read has its output queued when the engine next
comes to it. -/
theorem PipeServer.Piped.answers (h : f.Piped) (hcr : cr ∈ f.conn.mods.live)
    (hdone : cr.done = false) (hexited : (f.child cr.id).exited = true)
    (hread : (f.child cr.id).unread = []) (os : CgiOs) (n : Nat) :
    ∃ f', PipeServer.run env cfg [.poll cr.id, .dispatch os cr.id n] f = some f' ∧
      (cr.id, (f.child cr.id).written) ∈ f'.bodies := by
  have hopen : cr.isOpen = true := by
    rw [h.opened cr hcr, hdone]
    rfl
  have hwatch : f.watches cr.id = true := watches_iff.2 ⟨cr, hcr, rfl, hopen⟩
  have hpolled : f.step env cfg (.poll cr.id) = some (f.setChild cr.id (f.child cr.id).poll) := by
    rw [PipeServer.step, if_pos hwatch]
  have hreported : ((f.setChild cr.id (f.child cr.id).poll).child cr.id).reported
      = some ⟨false, false, false, true⟩ := by
    show (setAt f.child cr.id (f.child cr.id).poll cr.id).reported = _
    rw [setAt_self, Child.poll, if_pos (Or.inl hexited), hread, hexited]
    rfl
  have hstill : (f.setChild cr.id (f.child cr.id).poll).watches cr.id = true := hwatch
  have hbuffer : cr.rbuf = (f.child cr.id).written := by
    have hbytes := (h.reading cr hcr hdone).1
    rw [hread, List.append_nil] at hbytes
    exact hbytes
  have hon := @onEvent_found os f.conn.mods cr _ h.numbered h.alive hcr hopen _ _
    (cr.handleEvent_hangup hopen)
  obtain ⟨g, hg, hbodies⟩ : ∃ g, (f.setChild cr.id (f.child cr.id).poll).step env cfg
      (.dispatch os cr.id n) = some g ∧ g.bodies = f.bodies ++ [(cr.id, cr.rbuf)] := by
    rw [PipeServer.step, hreported]
    dsimp only
    rw [if_pos hstill, incoming_hangup rfl]
    exact ⟨_, congrArg some (PipeServer.handle_eq (f := PipeServer.setChild _ _ _) hon), rfl⟩
  refine ⟨g, ?_, ?_⟩
  · rw [PipeServer.run, run_cons, hpolled, Option.bind_some, run_singleton]
    exact hg
  · rw [hbodies, ← hbuffer]
    exact List.mem_append_right _ (List.mem_singleton_self _)

end Hottpd
