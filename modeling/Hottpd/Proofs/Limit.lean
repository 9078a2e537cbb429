import Hottpd.Proofs.Turns
import Hottpd.Core.World
import Hottpd.Lib.Trace

/-!
# How many responses a connection gets

The limit on the requests of a connection is looked at in one place, behind the
loop over the header lines: a request that reaches it turns `keepalive` off, and
nothing but the next request turns it on again. The error pages of the loop and
of the first line go out before that, and leave the connection open however many
requests it has seen.
-/

namespace Hottpd

open Bytes HTTPHeaders Trace

variable {σ : Type} {env : Env} {mods : List (Module σ)} {k : Int}

def Ev.isHead : Ev → Bool
  | .head .. => true
  | _ => false

/-- A header block that is refused before the limit is looked at, although the connection has
reached it, closes the connection all the same. -/
def UnderLimit (k : Int) (past : List Ev) : Ev → Prop
  | .parsed _ _ keepalive (.reject _ _ false) =>
      k ≤ past.countP Ev.isEnded + 1 → keepalive = false
  | _ => True

instance (past : List Ev) : (e : Ev) → Decidable (UnderLimit k past e)
  | .parsed _ _ _ (.reject _ _ false) => inferInstanceAs (Decidable (_ → _))
  | .parsed _ _ _ (.reject _ _ true) | .parsed _ _ _ .body | .parsed _ _ _ .dispatch
  | .cleaned | .hook .. | .served .. | .opened .. | .head .. | .page ..
  | .fatal .. | .dropped .. | .flush .. | .ended .. | .append .. | .state .. | .deleted =>
      isTrue trivial

/-! ## Counting in turns -/

/-- Every response but the one under way has ended. -/
theorem countP_isHead {trace : List Ev} {p : Phase} (h : phase trace = some p) :
    trace.countP Ev.isHead
      = trace.countP Ev.isEnded + (if p = .answering then 1 else 0) := by
  induction trace using List.reverseRecOn generalizing p with
  | nil =>
      cases h
      rfl
  | append_singleton trace e ih =>
      rw [phase_append, List.foldl_cons, List.foldl_nil] at h
      rw [List.countP_append, List.countP_append]
      cases hp : phase trace with
      | none =>
          rw [hp] at h
          cases e <;> cases h
      | some q =>
          rw [hp] at h
          rw [ih hp]
          cases q <;> cases e <;> cases h <;> rfl

theorem InTurn.of_initial {l l' : List Ev} (h : InTurn l') (hpre : l <+: l') : InTurn l := by
  obtain ⟨evs, rfl⟩ := hpre
  intro hnone
  refine h ?_
  rw [phase_append, hnone]
  clear h
  induction evs with
  | nil => rfl
  | cons e evs ih =>
      have hstep : phaseStep none e = none := by cases e <;> rfl
      rw [List.foldl_cons, hstep]
      exact ih

/-! ## The invariant -/

/-- The limit has been kept to, and the request under way will close the connection if it is
the last one allowed. -/
structure Limited (k : Int) (s : St σ) : Prop where
  counted : s.requestsCompleted = s.trace.countP Ev.isEnded
  under : phase s.trace ≠ some .idle →
    s.requestsCompleted < max k 1 ∧ (k ≤ s.requestsCompleted + 1 → s.keepalive = false)
  reached : max k 1 ≤ s.requestsCompleted → s.keepalive = false ∧ s.state ≠ .waitRequest
  most : s.requestsCompleted ≤ max k 1

variable {s s' : St σ} {l : List Ev}

/-- A step that neither begins nor ends a request. -/
theorem Limited.step (h : Limited k s) (htrace : s'.trace = s.trace ++ l)
    (hl : l.countP Ev.isEnded = 0)
    (hphase : phase s.trace = some .idle → phase s'.trace = some .idle)
    (hcount : s'.requestsCompleted = s.requestsCompleted)
    (hk : s.keepalive = false → s'.keepalive = false)
    (hs : s.state ≠ .waitRequest → s'.state ≠ .waitRequest) : Limited k s' := by
  refine ⟨?_, fun hp => ?_, fun hr => ?_, ?_⟩
  · rw [hcount, htrace, List.countP_append, hl, h.counted, Nat.add_zero]
  · obtain ⟨hlt, hoff⟩ := h.under fun hidle => hp (hphase hidle)
    rw [hcount]
    exact ⟨hlt, fun hle => hk (hoff hle)⟩
  · rw [hcount] at hr
    exact ⟨hk (h.reached hr).1, hs (h.reached hr).2⟩
  · rw [hcount]
    exact h.most

theorem Limited.idle (h : Limited k s) (htrace : s'.trace = s.trace ++ l)
    (hl : ∀ e ∈ l, e.isIdle) (hcount : s'.requestsCompleted = s.requestsCompleted)
    (hk : s.keepalive = false → s'.keepalive = false)
    (hs : s.state ≠ .waitRequest → s'.state ≠ .waitRequest) : Limited k s' := by
  refine h.step htrace (countP_idle hl) (fun hp => ?_) hcount hk hs
  rw [htrace, phase_append, hp]
  exact foldl_phaseStep_idle hl

theorem limited_delete (h : Limited k s) : Limited k (delete s) := by
  rw [delete_eq]
  exact h.idle rfl (by simp [Ev.isIdle]) rfl (fun hk => hk) fun _ => (by simp)

theorem Limited.drained {mask : EpollMask} {sends : Nat} {m : σ} (h : Limited k s) :
    Limited k (drained mask sends m s) :=
  h.idle rfl (flushEvents_idle s) rfl (fun hk => hk) fun hs => hs

theorem Limited.advanced {n : Nat} (h : Limited k s) : Limited k (advanced n s) :=
  h.idle (trace_advanced n s) (by simp [Ev.isIdle]) rfl (fun hk => hk) fun hs => hs

theorem Limited.dropKeepalive (h : Limited k s) : Limited k (dropKeepalive s) :=
  h.idle (trace_dropKeepalive s) (by simp [Ev.isIdle]) rfl (fun _ => rfl) fun hs => hs

theorem Limited.setState {x : HttpState} (hx : x ≠ .waitRequest) (h : Limited k s) :
    Limited k (s.setState x) :=
  h.idle (trace_setState s x) (by simp [Ev.isIdle]) rfl (fun hk => hk) fun _ => hx

/-- A header block is only sent for a request that has been taken. -/
theorem limited_writeHeaders {size code : Nat} {text : Bytes} {rheaders : HTTPHeaders}
    (hconn : getHeader rheaders (str "Connection") = []) (h : Limited k s)
    (hturn : InTurn (writeHeaders env size code text rheaders s).trace) :
    Limited k (writeHeaders env size code text rheaders s) := by
  rw [writeHeaders_eq _ _ _ _ hconn] at hturn ⊢
  refine h.step rfl (by simp [headEvents, Ev.isEnded]) (fun hp => absurd ?_ hturn) rfl
    (fun hk => hk) fun _ => (by simp)
  rw [phase_append, hp]
  rfl

variable (env) in
theorem limited_queueError (code : Nat) (text : Bytes) (fatal : Bool) (h : Limited k s)
    (hturn : InTurn (queueError env code text fatal s).trace) :
    Limited k (queueError env code text fatal s) := by
  rw [queueError_eq] at hturn ⊢
  refine h.step rfl ?_ (fun hp => absurd ?_ hturn) rfl (fun hk => hk) fun _ => (by simp)
  · cases fatal <;> simp [errorEvents, headEvents, Ev.isEnded]
  · rw [phase_append, hp]
    cases fatal <;> rfl

theorem limited_endStep (h : Limited k s) (hturn : InTurn (endStep s).trace) :
    Limited k (endStep s) := by
  have hphase : phase s.trace = some .answering := by
    by_contra hne
    refine hturn ?_
    rw [endStep_trace_eq, phase_append]
    cases hk : s.keepalive <;> simp only [endEvents, hk] <;>
      rcases hp : phase s.trace with _ | _ | _ | _ <;> first | rfl | exact absurd hp hne
  obtain ⟨hlt, hoff⟩ := h.under (by rw [hphase]; decide)
  have hidle : phase (endStep s).trace = some .idle := by
    rw [endStep_trace_eq, phase_append, hphase]
    cases hk : s.keepalive <;> simp [endEvents, hk, phaseStep]
  have hcount : (endStep s).trace.countP Ev.isEnded = s.requestsCompleted + 1 := by
    rw [endStep_trace_eq, List.countP_append, h.counted]
    cases hk : s.keepalive <;> simp [endEvents, hk, Ev.isEnded, List.countP_cons]
  cases hk : s.keepalive with
  | false =>
      rw [endStep_of_close hk] at hidle hcount ⊢
      refine ⟨hcount.symm, fun hp => absurd hidle hp, fun _ => ⟨hk, by simp⟩, ?_⟩
      show ((s.requestsCompleted + 1 : Nat) : Int) ≤ max k 1
      omega
  | true =>
      rw [endStep_of_keepalive hk] at hidle hcount ⊢
      have hmore : ¬ k ≤ s.requestsCompleted + 1 := fun hle => by
        rw [hoff hle] at hk
        cases hk
      refine ⟨hcount.symm, fun hp => absurd hidle hp, fun hr => ?_, ?_⟩
      · replace hr : max k 1 ≤ ((s.requestsCompleted + 1 : Nat) : Int) := hr
        omega
      · show ((s.requestsCompleted + 1 : Nat) : Int) ≤ max k 1
        omega

/-! ## Taking a header block -/

theorem decideKeepalive_limit {cfg : Config} {c : Connection}
    (h : cfg.keepAliveMax ≤ c.requestsCompleted + 1) : decideKeepalive cfg c = false := by
  unfold decideKeepalive
  exact if_pos h

/-- A block that is not refused on the way through its lines is told about the limit. -/
theorem takeRequest_limit {cfg : Config} {reqend : Nat} {c : Connection}
    (hv : ∀ code text, (takeRequest cfg reqend c).2 ≠ .reject code text false)
    (hlimit : cfg.keepAliveMax ≤ c.requestsCompleted + 1) :
    (takeRequest cfg reqend c).1.keepalive = false := by
  have hleft := parseLines_reread (crlfLines c.requestbuf) c
  unfold takeRequest at hv ⊢
  cases hparse : parseLines c (crlfLines c.requestbuf) with
  | error e =>
      obtain ⟨c', verdict⟩ := e
      simp only [hparse] at hv
      obtain ⟨code, text, rfl⟩ := parseLines_reject hparse
      exact absurd rfl (hv code text)
  | ok c' =>
      rw [hparse] at hleft
      simp only [leftBy, Reread] at hleft
      simp only [hparse] at hv ⊢
      unfold checkHeaders at hv ⊢
      split at hv
      · exact absurd rfl (hv 400 (str "Bad Request"))
      · next hok =>
          rw [if_neg hok]
          refine decideKeepalive_limit ?_
          rw [hleft]
          exact hlimit

theorem limited_taken {reqend : Nat} (hs : s.state = .waitRequest)
    (hlim : AtEach (UnderLimit env.cfg.keepAliveMax) (takenRequest env reqend s).trace)
    (h : Limited env.cfg.keepAliveMax s) :
    Limited env.cfg.keepAliveMax (takenRequest env reqend s) := by
  have hlt : (s.requestsCompleted : Int) < max env.cfg.keepAliveMax 1 := by
    by_contra hge
    exact (h.reached (Int.not_lt.1 hge)).2 hs
  have hoff : env.cfg.keepAliveMax ≤ s.requestsCompleted + 1 →
      (takenRequest env reqend s).keepalive = false := by
    intro hle
    by_cases hv : ∀ code text,
        (takeRequest env.cfg reqend s.toConnection).2 ≠ .reject code text false
    · exact takeRequest_limit hv hle
    · push Not at hv
      obtain ⟨code, text, hv⟩ := hv
      have hnew := hlim.append_right.1
      rw [hv] at hnew
      rw [h.counted] at hle
      exact hnew hle
  obtain ⟨_, _, _, _, _, _, -, heq⟩ := takenRequest_eq env reqend s
  rw [heq] at hoff ⊢
  refine ⟨?_, fun _ => ⟨hlt, hoff⟩, fun hr => absurd hr (Int.not_le.2 hlt), h.most⟩
  rw [h.counted, List.countP_append]
  rfl

theorem limited_hooked {reqend : Nat} {file : Bytes} {m : σ} {evs : List Ev} {res : Int}
    (hs : s.state = .waitRequest) (hrun : HookRun file 0 mods evs res)
    (hlim : AtEach (UnderLimit env.cfg.keepAliveMax)
      (hooked m evs (cleaned (takenRequest env reqend s))).trace)
    (h : Limited env.cfg.keepAliveMax s) :
    Limited env.cfg.keepAliveMax (hooked m evs (cleaned (takenRequest env reqend s))) := by
  have htrace : (hooked m evs (cleaned (takenRequest env reqend s))).trace
      = (takenRequest env reqend s).trace ++ .cleaned :: evs := by
    simp [hooked, cleaned]
  rw [htrace] at hlim
  refine (limited_taken hs hlim.of_append h).idle htrace ?_ rfl (fun hk => hk) fun hs => hs
  intro e he
  rcases List.mem_cons.1 he with rfl | he
  · rfl
  · obtain ⟨k, r, rfl⟩ := hrun.mem_hook e he
    rfl

/-! ## All moves -/

theorem Page.limited {code : Nat} {text : Bytes} {fatal : Bool}
    (h : Page env code text fatal s s') (hl : Limited k s) (hturn : InTurn s'.trace) :
    Limited k s' := by
  have hpage : ∀ fatal, (queueError env code text fatal s).trace <+: s'.trace →
      Limited k (queueError env code text fatal s) := fun fatal hpre =>
    limited_queueError env code text fatal hl (hturn.of_initial hpre)
  cases h with
  | queued => exact hpage _ List.prefix_rfl
  | held => exact (hpage true (by simp)).advanced.dropKeepalive
  | failed =>
      have hq := hpage true (by simp [delete_eq])
      refine (limited_delete ?_).dropKeepalive
      exact ⟨hq.counted, hq.under, hq.reached, hq.most⟩
  | sent =>
      have hq := hpage true (.trans (by simp) (endStep_trace _))
      exact limited_endStep hq.drained hturn

theorem Serve.limited (h : Serve env s s') (hl : Limited k s) (hturn : InTurn s'.trace) :
    Limited k s' := by
  cases h with
  | page hres hpage =>
      obtain ⟨upath, filefd, calls, -, rfl⟩ := resolveFile_error hres
      exact hpage.limited (hl.idle rfl (by simp [Ev.isIdle]) rfl (fun hk => hk) fun hs => hs) hturn
  | file hres =>
      obtain ⟨path, fst, calls, n, -, -, rfl⟩ := resolveFile_ok hres
      refine limited_writeHeaders core_no_connection.1 ?_ hturn
      exact hl.idle (trace_openedFile ..) (by simp [Ev.isIdle]) rfl (fun hk => hk) fun hs => hs
  | empty hres =>
      obtain ⟨path, fst, calls, n, -, -, rfl⟩ := resolveFile_ok hres
      refine limited_endStep (limited_writeHeaders core_no_connection.1 ?_
        (hturn.of_initial (endStep_trace _))) hturn
      exact hl.idle (trace_openedFile ..) (by simp [Ev.isIdle]) rfl (fun hk => hk) fun hs => hs

theorem FileOut.limited (h : FileOut env s s') (hl : Limited k s) (hturn : InTurn s'.trace) :
    Limited k s' := by
  cases h with
  | lost =>
      have hd := limited_delete hl
      exact limited_delete ⟨hd.counted, hd.under, hd.reached, hd.most⟩
  | failed => exact limited_delete ⟨hl.counted, hl.under, hl.reached, hl.most⟩
  | piece => exact ⟨hl.counted, hl.under, hl.reached, hl.most⟩
  | done => exact limited_endStep ⟨hl.counted, hl.under, hl.reached, hl.most⟩ hturn

theorem Move.limited (h : Move env mods true s s') (hturn : InTurn s'.trace)
    (hlim : AtEach (UnderLimit env.cfg.keepAliveMax) s'.trace)
    (hl : Limited env.cfg.keepAliveMax s) : Limited env.cfg.keepAliveMax s' := by
  -- the limit has been looked at in any earlier trace
  have hpast : ∀ {l : List Ev}, l <+: s'.trace →
      AtEach (UnderLimit env.cfg.keepAliveMax) l := by
    rintro l ⟨l', htrace⟩
    rw [← htrace] at hlim
    exact hlim.of_append
  cases h with
  | receive | modBufferDone | modState => exact ⟨hl.counted, hl.under, hl.reached, hl.most⟩
  | receiveBody =>
      obtain ⟨body, buf, heq⟩ := takeBody_eq _ s
      rw [heq]
      exact ⟨hl.counted, hl.under, hl.reached, hl.most⟩
  | refuse hs _ _ hpage => exact hpage.limited (limited_taken hs (hpast hpage.trace) hl) hturn
  | accept hs =>
      refine Limited.setState (by decide) (limited_taken hs (hpast ?_) hl)
      exact List.prefix_append _ _
  | claim hs _ _ hrun => exact limited_hooked hs hrun hlim hl
  | notImplemented hs _ _ hrun _ hs₁ _ hpage =>
      subst hs₁
      exact hpage.limited (limited_hooked hs hrun (hpast hpage.trace) hl) hturn
  | serve hs _ _ hrun _ hs₁ _ hserve =>
      subst hs₁
      exact hserve.limited (limited_hooked hs hrun (hpast hserve.trace) hl) hturn
  | serveBody _ _ hserve => exact hserve.limited hl hturn
  | advance => exact hl.advanced
  | sendFailed => exact limited_delete ⟨hl.counted, hl.under, hl.reached, hl.most⟩
  | flushed => exact hl.drained
  | pageDone => exact limited_endStep hl.drained hturn
  | fileStart _ _ _ hfile => exact hfile.limited (hl.drained.setState (by decide)) hturn
  | filePart _ _ _ hfile =>
      exact hfile.limited ⟨hl.counted, hl.under, hl.reached, hl.most⟩ hturn
  | dropKeepalive => exact hl.dropKeepalive
  | drop => exact limited_delete hl
  | modError _ hpage => exact hpage.limited hl hturn
  | modHeaders => exact limited_writeHeaders core_no_connection.1 hl hturn
  | modEmpty =>
      refine limited_endStep (limited_writeHeaders core_no_connection.1 hl ?_) hturn
      exact hturn.of_initial (endStep_trace _)
  | modSendData => exact hl.setState (by decide)
  | modWrite =>
      rw [write_eq]
      exact hl.idle rfl (by simp [Ev.isIdle]) rfl (fun hk => hk) fun hs => hs

theorem run_limited {m : σ} {evs : List Event} (hturn : InTurn (run env mods m evs).trace)
    (hlim : AtEach (UnderLimit env.cfg.keepAliveMax) (run env mods m evs).trace) :
    Limited env.cfg.keepAliveMax (run env mods m evs) := by
  refine run_guarded
    (G := fun l => InTurn l ∧ AtEach (UnderLimit env.cfg.keepAliveMax) l) ?_ ⟨hturn, hlim⟩ ?_
    fun hm hG hl => hm.limited hG.1 hG.2 hl
  · exact fun h => ⟨h.1.of_initial (List.prefix_append _ _), h.2.of_append⟩
  · refine ⟨rfl, fun hp => absurd rfl hp, fun hr => ?_, ?_⟩
    · replace hr : max env.cfg.keepAliveMax 1 ≤ ((0 : Nat) : Int) := hr
      omega
    · show ((0 : Nat) : Int) ≤ max env.cfg.keepAliveMax 1
      omega

/-- At most `max KeepAliveMax 1` responses, as long as no header block is refused ahead of the
limit with `keepalive` on, and modules answer in turn: one response for each header block that
was taken, and the next header block behind its end. -/
theorem responses_limited (env : Env) (mods : List (Module σ)) (m : σ) (evs : List Event)
    (hturn : mods ≠ [] → InTurn (run env mods m evs).trace)
    (hlim : AtEach (UnderLimit env.cfg.keepAliveMax) (run env mods m evs).trace) :
    (run env mods m evs).trace.countP Ev.isHead ≤ max env.cfg.keepAliveMax 1 := by
  have hinturn : InTurn (run env mods m evs).trace := by
    by_cases hm : mods = []
    · subst hm
      exact (run_turn env m evs).inTurn
    · exact hturn hm
  have hl := run_limited hinturn hlim
  obtain ⟨p, hp⟩ := Option.ne_none_iff_exists'.1 hinturn
  rw [countP_isHead hp, ← hl.counted]
  have hmost := hl.most
  split
  · next hanswering =>
      obtain ⟨hlt, -⟩ := hl.under (by rw [hp, hanswering]; decide)
      omega
  · omega

/-! ## A limit of one -/

/-- A server that closes each connection behind its first request. -/
def oneRequestWorld : Env :=
  { smallWorld [] (str "x") eager with cfg := { smallConfig with keepAliveMax := 1 } }

theorem responses_limited_one :
    (plainRun oneRequestWorld ["GET / HTTP/1.1\r\n\r\nGET / HTTP/1.1\r\n\r\n", ""]).trace.countP
      Ev.isHead ≤ max (1 : Int) 1 :=
  responses_limited oneRequestWorld [] ()
    (chunks ["GET / HTTP/1.1\r\n\r\nGET / HTTP/1.1\r\n\r\n", ""])
    (fun h => absurd rfl h) (by decide +kernel)

/-- Two requests without a version get a response each. -/
theorem refused_twice :
    ¬ (plainRun oneRequestWorld ["GET /\r\n\r\nGET /\r\n\r\n"]).trace.countP Ev.isHead
      ≤ max oneRequestWorld.cfg.keepAliveMax 1 := by
  decide +kernel

end Hottpd
