import Goboxd.Proofs.RunGuarded
import Goboxd.Proofs.RunsCounted
import Goboxd.Lib.FamilyView

/-!
# The access log and the metrics

Two accounts are kept of the runs. `recordRun` counts them by their status, and the
access log has a line for each request, with the status that was sent and the run
status out of a header. Neither is written from the other. A run that was cancelled
has no header, and neither has the answer to an error of the sandbox, but the code
of the answer tells them apart, so each line tells what was recorded.

The recorder in front of the log hears of every `WriteHeader`, the client only of
the first. That they agree is because no handler calls it twice, which is followed
here through what each of them writes. That a line of `POST /run` is about a run at
all, and not the 200 of some other handler, is the agreement of the multiplexer with
the path.
-/

namespace Goboxd.Api

open Go Config Models Runner Family

/-! ## What the log tells -/

/-- The status of a run, from the code and the header of its answer. -/
def runTold (code : ℕ) (runStatus : GoString) : Option GoString :=
  if runStatus ≠ [] then some runStatus
  else if code = 200 then some ResultStatus.cancelled.text
  else if code = 500 then some ResultStatus.internalError.text
  else none

/-- The status of a run, from its line in the log. -/
def LogEntry.told (e : LogEntry) : Option GoString :=
  if e.method = str "POST" ∧ e.path = str "/run" then runTold e.status e.runStatus else none

/-- A counter of the metrics. -/
def countOf (t : GoString) (m : Counts) : Int := (m.lookup t).getD 0

theorem countOf_bump (t key : GoString) (m : Counts) :
    countOf t (bump key m) = countOf t m + if t = key then 1 else 0 := by
  induction m with
  | nil =>
      simp only [bump, countOf, List.lookup_cons, List.lookup_nil]
      by_cases ht : t = key
      · simp [ht]
      · simp [ht, beq_eq_false_iff_ne.mpr ht]
  | cons e m ih =>
      obtain ⟨k, n⟩ := e
      simp only [countOf] at ih
      rw [bump]
      split
      · next hk =>
          subst hk
          simp only [countOf, List.lookup_cons]
          by_cases ht : t = k
          · simp [ht]
          · simp [ht, beq_eq_false_iff_ne.mpr ht]
      · next hk =>
          simp only [countOf, List.lookup_cons]
          by_cases ht : t = k
          · have hne : ¬ k = key := hk
            simp [ht, hne]
          · simp only [beq_eq_false_iff_ne.mpr ht]
            exact ih

/-! ## What is written -/

/-- Nothing was sent; the header holds this run status. -/
structure Pending (out : BodyRecorder) (id told : GoString) : Prop where
  sent : out.w.sent = none
  statusCode : out.statusCode = 200
  runStatus : out.w.header.get (str "X-Run-Status") = told
  requestID : out.w.header.get (str "X-Request-Id") = id

/-- This code was sent, with this run status, and the recorder knows both. -/
structure Written (out : BodyRecorder) (id : GoString) (code : ℕ) (told : GoString) :
    Prop where
  statusCode : out.statusCode = code
  runStatus : out.runStatus = told
  answer : ∃ h, out.w.sent = some (code, h) ∧ h.get (str "X-Run-Status") = told ∧
    h.get (str "X-Request-Id") = id

/-- What the recorder would report, if it reported now. -/
def Shows (out : BodyRecorder) (id : GoString) : Option (ℕ × GoString) → Prop
  | none => Pending out id []
  | some (code, runStatus) => Written out id code runStatus

/-- What that tells. A request that nothing was sent for was cancelled. -/
def shownTold (shown : Option (ℕ × GoString)) : Option GoString :=
  (shown.map fun s => runTold s.1 s.2).getD (some ResultStatus.cancelled.text)

section

variable {out : BodyRecorder} {id runStatus : GoString}

theorem BodyRecorder.ops_cons (o : WriterOp) (os : List WriterOp) :
    out.ops (o :: os) = (out.op o).ops os := rfl

theorem Pending.set {key value : GoString} (h : Pending out id runStatus)
    (hrun : str "X-Run-Status" ≠ key) (hid : str "X-Request-Id" ≠ key) :
    Pending (out.op (.set key value)) id runStatus := by
  refine ⟨h.sent, h.statusCode, ?_, ?_⟩
  · show Header.get ((key, value) :: out.w.header) _ = _
    rw [Header.get_cons, if_neg hrun, h.runStatus]
  · show Header.get ((key, value) :: out.w.header) _ = _
    rw [Header.get_cons, if_neg hid, h.requestID]

theorem Pending.setStatus {value : GoString} (h : Pending out id runStatus) :
    Pending (out.op (.set (str "X-Run-Status") value)) id value := by
  refine ⟨h.sent, h.statusCode, ?_, ?_⟩
  · show Header.get ((_, value) :: out.w.header) _ = _
    rw [Header.get_cons, if_pos rfl]
  · show Header.get ((_, value) :: out.w.header) _ = _
    rw [Header.get_cons, if_neg (by decide), h.requestID]

/-- The first call of `WriteHeader`, and what is written behind it. -/
theorem Pending.send {code : ℕ} (h : Pending out id runStatus) :
    Written (out.ops [.writeHeader code, .write]) id code runStatus := by
  have hw : out.w.send code = ⟨out.w.header, some (code, out.w.header)⟩ := by
    rw [ResponseWriter.send, if_pos h.sent]
  have hout : out.ops [.writeHeader code, .write] =
      ⟨⟨out.w.header, some (code, out.w.header)⟩, code⟩ := by
    show BodyRecorder.mk ((out.w.send code).send 200) code = _
    rw [hw]
    rfl
  rw [hout]
  exact ⟨rfl, h.runStatus, _, rfl, h.runStatus, h.requestID⟩

theorem Pending.error {code : ℕ} (h : Pending out id runStatus) :
    Written (out.ops (errorOps code)) id code runStatus := by
  rw [errorOps, BodyRecorder.ops_cons]
  exact (h.set (by decide) (by decide)).send

theorem Pending.reply (h : Pending out id []) (r : Reply) :
    Written (out.ops r.ops) id r.code [] := by
  obtain ⟨code, headers, plain⟩ := r
  show Written (out.ops ((headers.map _) ++ _)) id code []
  rw [BodyRecorder.ops, List.foldl_append]
  refine Pending.send ?_
  induction headers generalizing out with
  | nil => exact h
  | cons e es ih =>
      have he := plain e List.mem_cons_self
      exact ih (h.set he.2.symm he.1.symm) fun e' he' => plain e' (List.mem_cons_of_mem _ he')

/-- What an answer of `HandleRun` shows. -/
def Answer.shown : Answer → Option (ℕ × GoString)
  | .nothing => none
  | .run xRunStatus _ => some (200, xRunStatus)
  | .error code detail => some (code, if code = 503 then detail.code else [])

theorem Pending.answer (h : Pending out id []) (a : Answer) :
    Shows (out.ops (answerOps a)) id a.shown := by
  cases a with
  | nothing => exact h
  | run xRunStatus resp =>
      show Written (out.ops (answerOps (.run xRunStatus resp))) id 200 xRunStatus
      rw [answerOps, BodyRecorder.ops_cons, BodyRecorder.ops_cons]
      exact (h.set (by decide) (by decide)).setStatus.send
  | error code detail =>
      show Written (out.ops (answerOps (.error code detail))) id code
        (if code = 503 then detail.code else [])
      rw [answerOps]
      by_cases hcode : code = 503
      · rw [if_pos hcode, if_pos hcode, List.cons_append, List.cons_append, List.nil_append,
          BodyRecorder.ops_cons, BodyRecorder.ops_cons]
        exact (h.set (by decide) (by decide)).setStatus.error
      · rw [if_neg hcode, if_neg hcode, List.nil_append]
        exact h.error

theorem Shows.told {shown : Option (ℕ × GoString)} (h : Shows out id shown) :
    runTold out.statusCode out.runStatus = shownTold shown := by
  cases shown with
  | none =>
      have h : Pending out id [] := h
      rw [h.statusCode, show out.runStatus = [] from h.runStatus]
      rfl
  | some s =>
      have h : Written out id s.1 s.2 := h
      rw [h.statusCode, h.runStatus]
      rfl

/-- What the recorder reports is what the client has got. -/
theorem Shows.answer {shown : Option (ℕ × GoString)} (h : Shows out id shown) :
    out.w.answer.1 = out.statusCode ∧
      out.w.answer.2.get (str "X-Run-Status") = out.runStatus ∧
      out.w.answer.2.get (str "X-Request-Id") = id := by
  cases shown with
  | none =>
      have h : Pending out id [] := h
      have ha : out.w.answer = (200, out.w.header) := by
        rw [ResponseWriter.answer, ResponseWriter.send, if_pos h.sent]
        rfl
      rw [ha, h.statusCode]
      exact ⟨rfl, rfl, h.requestID⟩
  | some s =>
      have h : Written out id s.1 s.2 := h
      obtain ⟨hdr, hsent, hrun, hid⟩ := h.answer
      have ha : out.w.answer = (s.1, hdr) := by
        rw [ResponseWriter.answer, ResponseWriter.send,
          if_neg (by rw [hsent]; exact Option.some_ne_none _), hsent]
        rfl
      rw [ha, h.statusCode, h.runStatus]
      exact ⟨rfl, hrun, hid⟩

end

/-! ## What an answer tells is what is recorded -/

/-- The status that an answer tells. -/
def Answer.told (a : Answer) : Option GoString := shownTold a.shown

theorem told_refuseRun (clientGone : Bool) (e : AcquireErr) :
    (refuseRun clientGone e).answer.told = some (refuseRun clientGone e).record.1 := by
  cases clientGone <;> cases e <;> decide

theorem computeTopLevelStatus_ne_unset (build : BuildResult) (tests : List TestResult) :
    computeTopLevelStatus build tests ≠ .unset := by
  have hfirst : ∀ tests : List TestResult, firstNotAccepted tests ≠ .unset := by
    intro tests
    induction tests with
    | nil => exact fun h => by cases h
    | cons t rest ih =>
        rw [firstNotAccepted]
        split
        · split
          · next hvalid =>
              intro hunset
              rw [hunset] at hvalid
              cases hvalid
          · exact fun h => by cases h
        · exact ih
  unfold computeTopLevelStatus
  split
  · exact fun h => by cases h
  split
  · exact fun h => by cases h
  split
  · exact fun h => by cases h
  split
  · exact fun h => by cases h
  · exact hfirst tests

theorem told_finishRun (clientGone : Bool) (req : RunRequest) (build : BuildResult)
    (tests : List TestResult) (err : Option GoString) :
    (finishRun clientGone req build tests err).answer.told =
      some (finishRun clientGone req build tests err).record.1 := by
  have hrun : ∀ {top : ResultStatus} {resp : RunResponse}, top ≠ .unset →
      (Answer.run top.text resp).told = some top.text := by
    intro top resp htop
    show runTold 200 top.text = some top.text
    rw [runTold, if_pos]
    cases top <;> first | exact absurd rfl htop | decide
  unfold finishRun
  split
  · rfl
  · split
    · split
      · exact hrun (by simp)
      · rfl
    · simp only []
      exact hrun (computeTopLevelStatus_ne_unset build tests)

section

variable {cfg : FrontConfig} {s : St FrontState Exchange}

/-! ## Where a request is and what it has written -/

def HandlePc.isRejected : HandlePc → Bool
  | .rejected => true
  | _ => false

/-- What `HandleRun` has written, from where it is. -/
def CallShown (out : BodyRecorder) (id : GoString) (c : HandleCall) : Prop :=
  match c.records with
  | [] => if c.pc.isRejected then Written out id 400 [] else Pending out id []
  | r :: _ => ∃ shown, Shows out id shown ∧ shownTold shown = some r.status

/-- The request was answered by `HandleRun`, or by another handler or a refusal of one
of the two middlewares. -/
def Exchange.Answered (cfg : FrontConfig) (x : Exchange) : Prop :=
  (x.req.isRun = true ∧ ∃ c, x.call = some c ∧ c.finished = true ∧ c.Wf cfg.getenv cfg.reg ∧
    CallShown x.out x.requestID c) ∨
  (x.call = none ∧ ∃ code, Written x.out x.requestID code [] ∧
    (x.req.isRun = true → code = 401 ∨ code = 403 ∨ code = 429))

def Exchange.Wf (cfg : FrontConfig) (x : Exchange) : Prop :=
  match x.pc with
  | .arriving => x.call = none ∧ x.out = ⟨.fresh, 200⟩
  | .throttle | .allowing _ | .authorize | .dispatch =>
      x.call = none ∧ Pending x.out x.requestID []
  | .running => x.req.isRun = true ∧ ∃ c, x.call = some c ∧ c.Wf cfg.getenv cfg.reg ∧
      CallShown x.out x.requestID c
  | .serving _ => x.call = none ∧ x.req.isRun = false ∧ Pending x.out x.requestID []
  | .answered | .logged => x.Answered cfg
  | .recovered => x.call = none

theorem CallShown.of_pending {out : BodyRecorder} {id : GoString} {c : HandleCall}
    (hrec : c.records = []) (hpc : c.pc.isRejected = false) (h : Pending out id []) :
    CallShown out id c := by
  rw [CallShown, hrec]
  simp only [hpc, Bool.false_eq_true, if_false]
  exact h

theorem CallShown.pending {out : BodyRecorder} {id : GoString} {c : HandleCall}
    (h : CallShown out id c) (hrec : c.records = []) (hpc : c.pc.isRejected = false) :
    Pending out id [] := by
  rw [CallShown, hrec] at h
  simp only [hpc, Bool.false_eq_true, if_false] at h
  exact h

/-- Behind a record, what is shown does not depend on where the request is. -/
theorem CallShown.keep {out : BodyRecorder} {id : GoString} {c c' : HandleCall}
    {r : RunRecord} (h : CallShown out id c) (hrec : c.records = [r])
    (hrec' : c'.records = c.records) : CallShown out id c' := by
  rw [CallShown, hrec', hrec]
  rw [CallShown, hrec] at h
  exact h

/-- The step that records an answer writes it. -/
theorem callShown_beginRecord {out : BodyRecorder} {id : GoString} {c : HandleCall}
    {end_ : Handled} {duration : Int} (hp : Pending out id [])
    (htold : end_.answer.told = some end_.record.1) :
    CallShown (out.ops (answerOps end_.answer)) id (c.beginRecord end_ duration) :=
  ⟨end_.answer.shown, hp.answer end_.answer, htold⟩

/-- A step of `HandleRun` leaves what it has written told by what it records. -/
theorem CallShown.move {sh : ApiState} {c : HandleCall} {a : HandleAct}
    {r : ApiState × HandleCall} {out : BodyRecorder} {id : GoString}
    (h : HandleMove cfg.getenv cfg.reg sh c a r) (hw : c.Wf cfg.getenv cfg.reg)
    (hc : CallShown out id c) :
    CallShown (out.ops (handleOps cfg.getenv cfg.reg c a)) id r.2 := by
  unfold HandleCall.Wf at hw
  cases h with
  | pass hpc hval =>
      rw [hpc] at hw
      have hops : handleOps cfg.getenv cfg.reg c .validate = [] := by rw [handleOps, hval]
      rw [hops]
      have hp := hc.pending hw.2 (by rw [hpc]; rfl)
      exact CallShown.of_pending (c := c.setPc (.acquiring _)) hw.2 rfl hp
  | reject hpc hval =>
      rw [hpc] at hw
      have hops : handleOps cfg.getenv cfg.reg c .validate = errorOps 400 := by
        rw [handleOps, hval]
      have hp := hc.pending hw.2 (by rw [hpc]; rfl)
      rw [hops, CallShown, show (c.setPc .rejected).records = [] from hw.2]
      exact hp.error
  | gate hpc ha hm =>
      rw [hpc] at hw
      have hpc' : c.pc.isRejected = false := by rw [hpc]; rfl
      exact CallShown.of_pending (c := c.setCaller _) hw.2.2 hpc' (hc.pending hw.2.2 hpc')
  | disconnect => exact hc
  | refuse hpc hph =>
      rw [hpc] at hw
      have hp := hc.pending hw.2.2 (by rw [hpc]; rfl)
      simp only [handleOps, hph]
      exact callShown_beginRecord hp (told_refuseRun _ _)
  | count hpc hph =>
      rw [hpc] at hw
      have hp := hc.pending hw.2.2 (by rw [hpc]; rfl)
      exact CallShown.of_pending (c := c.setPc (.running _)) hw.2.2 rfl hp
  | finish hpc =>
      rw [hpc] at hw
      have hp := hc.pending hw.2.2 (by rw [hpc]; rfl)
      simp only [handleOps, hpc]
      exact callShown_beginRecord hp (told_finishRun _ _ _ _ _)
  | record hpc ho =>
      rw [hpc] at hw
      exact hc.keep hw.2.2 rfl
  | uncount hpc hph =>
      rw [hpc] at hw
      exact hc.keep hw.2.2 rfl
  | release hpc hph =>
      rw [hpc] at hw
      obtain ⟨r, hrec⟩ := hw.2.2
      exact hc.keep hrec rfl
  | ret hpc hph =>
      rw [hpc] at hw
      exact hc.keep hw.2.2 rfl

theorem status_of_authRefusal {getenv : Env} {r : HttpRequest} {e : ℕ × ErrorDetail}
    (h : authRefusal getenv r = some e) : e.1 = 401 ∨ e.1 = 403 := by
  rw [authRefusal] at h
  split at h
  · simp only [] at h
    split at h
    · cases h; exact .inl rfl
    · split at h
      · cases h; exact .inr rfl
      · cases h
  · cases h

theorem Exchange.Wf.move {sh : FrontState} {x : Exchange} {r : FrontState × Exchange}
    (h : FrontMove cfg sh x r) (hx : x.Wf cfg) : r.2.Wf cfg := by
  unfold Exchange.Wf at hx
  cases h with
  | @identify id hpc =>
      rw [hpc] at hx
      obtain ⟨hc, hout⟩ := hx
      refine ⟨hc, ?_⟩
      show Pending (x.out.ops [.set (str "X-Request-Id") id]) id []
      rw [hout]
      refine ⟨rfl, rfl, ?_, ?_⟩
      · show Header.get [(str "X-Request-Id", id)] (str "X-Run-Status") = []
        rw [Header.get_cons, if_neg (by decide)]
        rfl
      · show Header.get [(str "X-Request-Id", id)] (str "X-Request-Id") = id
        rw [Header.get_cons, if_pos rfl]
  | unthrottled hpc hno =>
      rw [hpc] at hx
      exact hx
  | stamp hpc hc =>
      rw [hpc] at hx
      exact hx
  | allow hpc hr =>
      rw [hpc] at hx
      exact hx
  | limit hpc hr =>
      rw [hpc] at hx
      refine .inr ⟨hx.1, 429, ?_, fun _ => .inr (.inr rfl)⟩
      show Written (x.out.ops (_ :: errorOps 429)) x.requestID 429 []
      rw [BodyRecorder.ops_cons]
      exact (hx.2.set (by decide) (by decide)).error
  | pass hpc ha =>
      rw [hpc] at hx
      exact hx
  | @refuse e hpc ha =>
      rw [hpc] at hx
      refine .inr ⟨hx.1, e.1, hx.2.error, fun _ => ?_⟩
      rcases status_of_authRefusal ha with hcode | hcode
      · exact .inl hcode
      · exact .inr (.inl hcode)
  | enter hpc hf =>
      rw [hpc] at hx
      exact ⟨(find_run_iff _ _ _).mp ⟨_, hf⟩, _, rfl, ⟨rfl, rfl⟩, hx.2⟩
  | @route found hpc hf hrun =>
      rw [hpc] at hx
      refine ⟨hx.1, Bool.eq_false_iff.mpr fun hisRun => ?_, hx.2⟩
      obtain ⟨values, hfound⟩ := (find_run_iff cfg.getenv cfg.playgroundExists x.req).mpr hisRun
      exact hrun values (hf.symm.trans hfound)
  | run hpc hc hr =>
      rw [hpc] at hx
      obtain ⟨hisRun, c, hcall, hw, hshown⟩ := hx
      obtain rfl := Option.some.inj (hcall.symm.trans hc)
      have hm := handleStep_move hr
      exact ⟨hisRun, _, rfl, hw.step hm, hshown.move hm hw⟩
  | leave hpc hc hover =>
      rw [hpc] at hx
      obtain ⟨hisRun, c, hcall, hw, hshown⟩ := hx
      obtain rfl := Option.some.inj (hcall.symm.trans hc)
      refine .inl ⟨hisRun, c, hcall, ?_, hw, hshown⟩
      rcases hover with hover | hover <;> rw [HandleCall.finished, hover]
  | @serve found r hpc =>
      rw [hpc] at hx
      refine .inr ⟨hx.1, r.code, hx.2.2.reply r, fun hisRun => ?_⟩
      have hne : x.req.isRun = true := hisRun
      rw [hx.2.1] at hne
      cases hne
  | panic hpc =>
      rw [hpc] at hx
      exact hx.1
  | log hpc =>
      rw [hpc] at hx
      exact hx

theorem each_exchange_wf (h : (frontDoor cfg).machine.Reachable s) :
    Each (fun _ _ x => x.Wf cfg) s := by
  refine Family.each ?_ ?_ ?_ ?_ h
  · intro s p a x r _ hall _ hx hr
    exact (hall p x hx).move (frontStep_move hr)
  · intro s p a x r q y _ hall _ _ _ _ hy
    exact hall q y hy
  · intro s e r q y _ hall _ _ hy
    exact hall q y hy
  · intro s e r k y _ _ hr hy
    have hmem := List.mem_of_getElem? hy
    cases frontEvent_arrival hr with
    | request req =>
        rw [List.mem_singleton.mp hmem]
        exact ⟨rfl, rfl⟩
    | tick | stop => cases hmem

/-! ## The runs behind the front door -/

/-- The calls of `HandleRun` behind the middlewares are a run of `POST /run` alone. -/
theorem frontDoor_seen (h : (frontDoor cfg).machine.Reachable s) :
    ∃ t, (requests cfg.getenv cfg.reg cfg.maxJobs cfg.maxQueued).machine.Reachable t ∧
      Seen FrontState.api Exchange.call s t := by
  refine Family.seen ?_ ?_ ?_ h
  · intro sh hsh
    rw [show sh = newFrontState cfg from hsh]
    rfl
  · intro s p a x r hreach hx hr
    have hw : x.Wf cfg := each_exchange_wf hreach p x hx
    unfold Exchange.Wf at hw
    cases frontStep_move hr with
    | enter hpc hf =>
        rw [hpc] at hw
        exact .join (e := .request x.req.body) hw.1 rfl rfl
    | run hpc hc hstep => exact .step hc rfl fun _ => hstep
    | identify | unthrottled | stamp | allow | limit | pass | refuse | route | leave | serve
    | panic | log => exact .still rfl rfl
  · intro sh e r hr
    cases frontEvent_arrival hr with
    | request | tick => exact .inl ⟨rfl, rfl⟩
    | stop => exact .inr ⟨.stop, rfl⟩

/-- What the calls have added to a counter, as a sum over all requests. -/
theorem total_of_seen {t : St ApiState HandleCall} (hseen : Seen FrontState.api Exchange.call s t)
    (w : HandleCall → ℤ) :
    total w t.procs = total (fun x => x.call.elim 0 w) s.procs :=
  (total_perm hseen.2).trans (total_filterMap w Exchange.call s.procs)

/-! ## The counter of a status -/

/-- One for a request that has counted itself under this status. -/
def HandleCall.inStatus (t : GoString) (c : HandleCall) : ℤ :=
  if c.records.any (fun r => decide (r.status = t)) then c.pc.recordPc.inStatuses else 0

theorem countOf_eq {getenv : Env} {reg : Registry} {maxJobs maxQueued : Int}
    {s : St ApiState HandleCall} (t : GoString)
    (h : (requests getenv reg maxJobs maxQueued).machine.Reachable s) :
    countOf t s.shared.metrics.statuses = total (HandleCall.inStatus t) s.procs := by
  refine added (w := fun pc e => if e then pc.inStatuses else 0)
    (q := fun m => countOf t m.statuses) (P := fun r => decide (r.status = t)) rfl
    (fun e => by cases e <;> rfl) ?_ (fun _ _ => ⟨rfl, rfl⟩) h
  intro m r pc o ho
  cases pc with
  | addTotal =>
      cases ho
      simp [RecordPc.inStatuses]
  | addErrors =>
      cases ho
      cases r.isError <;> simp [RecordPc.inStatuses]
  | lockStatuses =>
      cases ho
      simp only [countOf_bump, RecordPc.inStatuses, decide_eq_true_eq, ite_self, Int.sub_zero]
      simp only [eq_comm]
  | lockLatency =>
      cases ho
      exact (Int.sub_add_cancel _ _).symm
  | returned => cases ho

/-! ## The lines of the log -/

def Exchange.isLogged (x : Exchange) : Bool :=
  match x.pc with
  | .logged => true
  | _ => false

/-- The request is over. A panic is over without a line in the log. -/
def Exchange.over (x : Exchange) : Bool :=
  match x.pc with
  | .logged | .recovered => true
  | _ => false

/-- The line of a request in the log. -/
def Exchange.entry (x : Exchange) : LogEntry := logEntry x.req x.requestID x.out

/-- One for a request with such a line. -/
def Exchange.inLog (P : LogEntry → Bool) (x : Exchange) : ℤ :=
  if x.isLogged && P x.entry then 1 else 0

theorem inLog_of_not_logged {P : LogEntry → Bool} {x : Exchange} (h : x.isLogged = false) :
    x.inLog P = 0 := by
  rw [Exchange.inLog, h]
  rfl

theorem countP_log (P : LogEntry → Bool) (h : (frontDoor cfg).machine.Reachable s) :
    (s.shared.log.countP P : ℤ) = total (Exchange.inLog P) s.procs := by
  refine Family.accounting (q := fun sh => (sh.log.countP P : ℤ)) ?_ ?_ ?_ h
  · intro sh hsh
    rw [show sh = newFrontState cfg from hsh]
    rfl
  · intro s p a x r _ _ hr
    -- a step other than that of the log is not taken from `logged` and does not go there
    have hkeep : ∀ {x' : Exchange}, x.isLogged = false → x'.isLogged = false →
        (s.shared.log.countP P : ℤ) = s.shared.log.countP P - x.inLog P + x'.inLog P := by
      intro x' hx hx'
      rw [inLog_of_not_logged hx, inLog_of_not_logged hx', Int.sub_zero, Int.add_zero]
    cases frontStep_move hr with
    | log hpc =>
        have hx : x.isLogged = false := by rw [Exchange.isLogged, hpc]
        rw [inLog_of_not_logged hx, List.countP_append, Int.sub_zero, Nat.cast_add]
        congr 1
        show ((List.countP P [x.entry] : ℕ) : ℤ) = if P x.entry then 1 else 0
        rw [List.countP_singleton]
        split <;> rfl
    | identify hpc | unthrottled hpc | stamp hpc | allow hpc | limit hpc | pass hpc
    | refuse hpc | enter hpc | route hpc | run hpc | leave hpc | serve hpc | panic hpc =>
        exact hkeep (by rw [Exchange.isLogged, hpc]) rfl
  · intro s e r _ hr
    cases frontEvent_arrival hr with
    | request | tick | stop => exact (Int.add_zero _).symm

/-- The log is the lines of the requests that were logged. -/
theorem log_perm (h : (frontDoor cfg).machine.Reachable s) :
    s.shared.log.Perm ((s.procs.filter Exchange.isLogged).map Exchange.entry) := by
  refine List.perm_iff_count.mpr fun e => ?_
  have hcount := countP_log (fun e' => e' == e) h
  have hsum := total_eq_countP (fun x : Exchange => x.isLogged && x.entry == e) s.procs
  rw [List.count_eq_countP, List.count_eq_countP, List.countP_map, List.countP_filter]
  refine Int.ofNat.inj ((hcount.trans hsum).trans ?_)
  congr 1
  refine List.countP_congr fun x _ => ?_
  simp [and_comm]

/-! ## A line tells what was counted -/

/-- What the line of a request has to do with what the request has counted. -/
inductive Exchange.Reconciled (x : Exchange) : Prop where
  | other (hcall : x.call = none) (htold : x.entry.told = none)
  | rejected {c : HandleCall} (hcall : x.call = some c) (hrec : c.records = [])
      (hpc : c.pc = .rejected) (htold : x.entry.told = none)
  | counted {c : HandleCall} {r : RunRecord} (hcall : x.call = some c)
      (hrec : c.records = [r]) (hpc : c.pc = .returned)
      (htold : x.entry.told = some r.status)

theorem told_of_isRun {x : Exchange} (h : x.req.isRun = true) :
    x.entry.told = runTold x.out.statusCode x.out.runStatus := by
  have hrun : x.req.method = str "POST" ∧ x.req.url.path = str "/run" := by
    simpa [HttpRequest.isRun] using h
  show (if x.req.method = str "POST" ∧ x.req.url.path = str "/run" then
    runTold x.out.statusCode (if x.req.isRun then x.out.runStatus else []) else none) = _
  rw [if_pos hrun, if_pos h]

theorem told_of_not_isRun {x : Exchange} (h : x.req.isRun = false) : x.entry.told = none := by
  have hrun : ¬ (x.req.method = str "POST" ∧ x.req.url.path = str "/run") := by
    simpa [HttpRequest.isRun] using h
  exact if_neg hrun

/-- What a call that has returned has written: the refusal of a request that is not
valid, or what tells its record. -/
theorem CallShown.ended {out : BodyRecorder} {id : GoString} {c : HandleCall}
    (h : CallShown out id c) (hw : c.Wf cfg.getenv cfg.reg) (hfin : c.finished = true) :
    (c.pc = .rejected ∧ c.records = [] ∧ Shows out id (some (400, []))) ∨
    (c.pc = .returned ∧ ∃ r shown, c.records = [r] ∧ Shows out id shown ∧
      shownTold shown = some r.status) := by
  unfold HandleCall.Wf at hw
  cases hpc : c.pc with
  | rejected =>
      rw [hpc] at hw
      rw [CallShown, hw.2.2, hpc] at h
      exact .inl ⟨rfl, hw.2.2, h⟩
  | returned =>
      rw [hpc] at hw
      obtain ⟨r, hrec⟩ := hw.2.2
      rw [CallShown, hrec] at h
      obtain ⟨shown, hshows, hstatus⟩ := h
      exact .inr ⟨rfl, r, shown, hrec, hshows, hstatus⟩
  | validating | acquiring | running | recording | releasing =>
      rw [HandleCall.finished, hpc] at hfin
      cases hfin

theorem Exchange.Answered.reconciled {x : Exchange} (h : x.Answered cfg) : x.Reconciled := by
  rcases h with ⟨hisRun, c, hcall, hfin, hw, hshown⟩ | ⟨hcall, code, hwritten, hrefused⟩
  · have htold := told_of_isRun hisRun
    rcases hshown.ended hw hfin with
      ⟨hpc, hrec, hshows⟩ | ⟨hpc, r, shown, hrec, hshows, hstatus⟩
    · exact .rejected hcall hrec hpc (htold.trans hshows.told)
    · exact .counted hcall hrec hpc (htold.trans (hshows.told.trans hstatus))
  · refine .other hcall ?_
    cases hisRun : x.req.isRun with
    | false => exact told_of_not_isRun hisRun
    | true =>
        rw [told_of_isRun hisRun, hwritten.statusCode, hwritten.runStatus]
        rcases hrefused hisRun with rfl | rfl | rfl <;> rfl

/-- What the client has got is what the log says. -/
structure Exchange.Delivered (x : Exchange) : Prop where
  status : x.out.w.answer.1 = x.entry.status
  runStatus : x.req.isRun = true →
    x.out.w.answer.2.get (str "X-Run-Status") = x.entry.runStatus
  requestID : x.out.w.answer.2.get (str "X-Request-Id") = x.entry.requestID

theorem Shows.delivered {x : Exchange} {shown : Option (ℕ × GoString)}
    (h : Shows x.out x.requestID shown) : x.Delivered := by
  obtain ⟨hcode, hrun, hid⟩ := h.answer
  refine ⟨hcode, fun hisRun => ?_, hid⟩
  show _ = if x.req.isRun then x.out.runStatus else []
  rw [if_pos hisRun, hrun]

theorem Exchange.Answered.delivered {x : Exchange} (h : x.Answered cfg) : x.Delivered := by
  rcases h with ⟨-, c, -, hfin, hw, hshown⟩ | ⟨-, code, hwritten, -⟩
  · rcases hshown.ended hw hfin with ⟨-, -, hshows⟩ | ⟨-, r, shown, -, hshows, -⟩
    · exact hshows.delivered
    · exact hshows.delivered
  · have hshows : Shows x.out x.requestID (some (code, [])) := hwritten
    exact hshows.delivered

theorem answered_of_logged (h : (frontDoor cfg).machine.Reachable s) {x : Exchange}
    (hx : x ∈ s.procs) (hlog : x.isLogged = true) : x.Answered cfg := by
  obtain ⟨p, hp⟩ := List.getElem?_of_mem hx
  have hw : x.Wf cfg := each_exchange_wf h p x hp
  unfold Exchange.Wf at hw
  unfold Exchange.isLogged at hlog
  split at hlog
  · next hpc =>
      rw [hpc] at hw
      exact hw
  · cases hlog

/-- What a request that is over has added to a sum over the calls is what its line adds
to a count over the lines, when this is so for each record. -/
theorem inLog_eq (h : (frontDoor cfg).machine.Reachable s) {w : HandleCall → ℤ}
    {P : Option GoString → Bool} (hnone : P none = false)
    (hrejected : ∀ c : HandleCall, c.records = [] → c.pc = .rejected → w c = 0)
    (hcounted : ∀ (c : HandleCall) (r : RunRecord), c.records = [r] → c.pc = .returned →
      w c = if P (some r.status) then 1 else 0) {x : Exchange}
    (hx : x ∈ s.procs) (hover : x.over = true) :
    x.call.elim 0 w = x.inLog fun e => P e.told := by
  cases hlog : x.isLogged with
  | false =>
      obtain ⟨p, hp⟩ := List.getElem?_of_mem hx
      have hw : x.Wf cfg := each_exchange_wf h p x hp
      rw [inLog_of_not_logged hlog]
      unfold Exchange.Wf at hw
      unfold Exchange.isLogged at hlog
      unfold Exchange.over at hover
      cases hpc : x.pc with
      | recovered =>
          rw [hpc] at hw
          rw [show x.call = none from hw]
          rfl
      | logged =>
          rw [hpc] at hlog
          cases hlog
      | arriving | throttle | allowing | authorize | dispatch | running | serving
      | answered =>
          rw [hpc] at hover
          cases hover
  | true =>
      rw [Exchange.inLog, hlog, Bool.true_and]
      cases (answered_of_logged h hx hlog).reconciled with
      | other hcall htold =>
          rw [hcall, htold, hnone]
          rfl
      | rejected hcall hrec hpc htold =>
          rw [hcall, htold, hnone]
          exact hrejected _ hrec hpc
      | counted hcall hrec hpc htold =>
          rw [hcall, htold]
          exact hcounted _ _ hrec hpc

/-- The counters of the metrics, read off the access log. -/
structure CountersLogged (sh : FrontState) : Prop where
  statuses : ∀ t, countOf t sh.api.metrics.statuses =
    sh.log.countP fun e => decide (e.told = some t)
  totalRuns : sh.api.metrics.totalRuns = sh.log.countP fun e => e.told.isSome

theorem counters_logged (h : (frontDoor cfg).machine.Reachable s)
    (hover : ∀ x ∈ s.procs, x.over = true) : CountersLogged s.shared := by
  obtain ⟨t, ht, hseen⟩ := frontDoor_seen h
  refine ⟨fun status => ?_, ?_⟩
  · rw [← hseen.1, countOf_eq status ht, total_of_seen hseen, countP_log _ h]
    refine total_congr fun x hx => inLog_eq (P := fun o => decide (o = some status)) h
      (decide_eq_false fun hnone => by cases hnone) ?_ ?_ hx (hover x hx)
    · intro c hrec _
      rw [HandleCall.inStatus, hrec]
      rfl
    · intro c r hrec hpc
      rw [HandleCall.inStatus, hrec, hpc]
      simp [HandlePc.recordPc, RecordPc.inStatuses]
  · rw [← hseen.1, totalRuns_eq ht, total_of_seen hseen, countP_log _ h]
    refine total_congr fun x hx => inLog_eq (P := Option.isSome) h rfl ?_ ?_ hx (hover x hx)
    · intro c _ hpc
      rw [hpc]
      rfl
    · intro c r _ hpc
      rw [hpc]
      rfl

/-- The access log has one line for each request that was logged, with the status, the
run status and the id that the client has got. When no request is in progress, its
lines tell how often each status was counted and how many runs there were, whatever
the requests, their handlers, panics and the order of their steps. -/
theorem access_log_reconciles (h : (frontDoor cfg).machine.Reachable s) :
    s.shared.log.Perm ((s.procs.filter Exchange.isLogged).map Exchange.entry) ∧
    (∀ x ∈ s.procs, x.isLogged = true → x.Delivered) ∧
    ((∀ x ∈ s.procs, x.over = true) → CountersLogged s.shared) :=
  ⟨log_perm h, fun _ hx hlog => (answered_of_logged h hx hlog).delivered, counters_logged h⟩

end

/-! ## A client that goes away, and one without the token -/

def loggedConfig : FrontConfig := { guardedConfig with reg := pyRegistry }

def cancelledRequest : HttpRequest := { oddlySpelled with body := .ok (pyRequest []) }

def tokenless : HttpRequest := { oddlySpelled with header := fun _ => [] }

def twoRequests : List (Act FrontAct FrontEvent) :=
  [.env (.request cancelledRequest), .env (.request tokenless),
    .own 0 (.identify (str "0a1b")), .own 0 .throttle, .own 1 (.identify (str "2c3d")),
    .own 1 .throttle, .own 0 .allow, .own 0 .authorize, .own 0 .dispatch,
    .own 0 (.run .validate), .own 1 .allow,
    .own 0 (.run (.gate .enter)), .own 0 (.run .count), .own 0 (.run .disconnect),
    .own 1 .authorize, .own 1 .log, .own 0 (.run (.finish okBuild [] none 120000000)),
    .own 0 (.run .record), .own 0 (.run .record), .own 0 (.run .record),
    .own 0 (.run .record), .own 0 (.run .uncount), .own 0 (.run .release), .own 0 .leave,
    .own 0 .log]

theorem access_log_reconciles_cancelled :
    ∃ s, (frontDoor loggedConfig).machine.exec ⟨newFrontState loggedConfig, []⟩ twoRequests =
        some s ∧ CountersLogged s.shared ∧
      s.shared.log.map LogEntry.told = [none, some ResultStatus.cancelled.text] ∧
      s.shared.api.metrics.totalRuns = 1 := by
  have hran : ((frontDoor loggedConfig).machine.exec ⟨newFrontState loggedConfig, []⟩
      twoRequests).any (fun s => s.procs.all Exchange.over &&
        decide (s.shared.log.map LogEntry.told = [none, some ResultStatus.cancelled.text]) &&
        decide (s.shared.api.metrics.totalRuns = 1)) = true := by
    decide +kernel
  obtain ⟨s, hs, hran⟩ := (Option.any_eq_true _ _).mp hran
  simp only [Bool.and_eq_true, decide_eq_true_eq] at hran
  have hinit : (frontDoor loggedConfig).machine.init ⟨newFrontState loggedConfig, []⟩ :=
    ⟨rfl, rfl⟩
  obtain ⟨-, -, hcounters⟩ := access_log_reconciles (Machine.reachable_of_exec _ hinit hs)
  exact ⟨s, hs, hcounters (List.all_eq_true.mp hran.1.1), hran.1.2, hran.2⟩

end Goboxd.Api
