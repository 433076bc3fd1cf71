import Goboxd.Api.Probes
import Goboxd.Proofs.OutputVerdict
import Mathlib.Data.List.Forall2

/-!
# What `/readyz` says was so

Whatever else is going on, `/readyz` tells an operator of nothing that was long ago. If it
answers 200, nsjail and each language of a registry that was in force while it answered were
probed with success, by a probe that was over later than a lifetime of the cache before the
request came. If it answers 503 without a shutdown, the probe of one of them was without. A
probe comes to what it comes to because of what the host was at moments of that probe: a
command failed, and the binary was found or not. What may be stale besides is which
configuration of a language was probed: the cache keeps a language under its id, so for a
lifetime after a reload the probe may be one of the old configuration.

And the host is not flooded with probes: there is one at a time, and of one language or nsjail
no more begin in any window than the lifetimes that fit into it and one.
-/

namespace Goboxd.Api

open Go Config TtlCache

abbrev ProbeSt : Type :=
  TtlCache.St ProbeQuery GoString ProbeLook ProbeAnswer ReadyProbe ProbeReply ProbeWorld

/-- A request for `/readyz` or `/info`. -/
abbrev ProbeRequest : Type :=
  TtlCache.Asker ProbeQuery ProbeLook ProbeAnswer ReadyProbe ProbeReply

/-! ## What a probe shows -/

/-- The command by which something is probed. -/
def queryCmd : ProbeQuery → List GoString
  | .nsjail => [str "nsjail", str "--help"]
  | .lang lc => probeCmd lc

/-- It was so at some moment from `a` to `b`. -/
def During (s : ProbeSt) (a b : ℤ) (holds : ProbeWorld → Prop) : Prop :=
  ∃ t w, (t, w) ∈ s.past ∧ a ≤ t ∧ t ≤ b ∧ holds w

/-- What a probe from `a` to `b` found. It succeeded because its command did, or because that
failed and the binary of the language was found; and it failed because its command failed
and, if it was of a language, the binary was not found. -/
def ProbeFound (s : ProbeSt) (a b : ℤ) (q : ProbeQuery) : Bool → Prop
  | true =>
      During s a b (fun w => (w.run (queryCmd q)).err = none) ∨
        (∃ lc, q = .lang lc) ∧ During s a b (fun w => (w.run (queryCmd q)).err ≠ none) ∧
          During s a b fun w => (w.lookPath ((queryCmd q).headD [])).isSome = true
  | false =>
      During s a b (fun w => (w.run (queryCmd q)).err ≠ none) ∧
        ∀ lc, q = .lang lc → During s a b fun w => w.lookPath ((queryCmd q).headD []) = none

/-- A probe of `q` came to `p`, for the reasons there are, and it was over later than a
lifetime before `a`. -/
def Was (s : ProbeSt) (ttl a : ℤ) (q : ProbeQuery) (p : ReadyProbe) : Prop :=
  ∃ c ∈ s.computed, c.query = q ∧ c.value = p ∧ (a ≤ c.stored ∨ a - ttl < c.stored) ∧
    ProbeFound s c.started c.stored q p.OK

variable {ttl : ℤ} {version : GoString → GoString} {s : ProbeSt}

/-- What a call of a probe was answered was so during the probe. -/
theorem during_of_seen {a b : ℤ} {c : ProbeLook} {x : ProbeAnswer c} {holds : ProbeWorld → Prop}
    (h : Seen (probes ttl version) s a b c x) (himp : ∀ w, probeLook c w x → holds w) :
    During s a b holds := by
  obtain ⟨t, w, hm, ha, hb, hlook⟩ := h
  exact ⟨t, w, hm, ha, hb, himp w hlook⟩

theorem langExec_comesTo {lc : LanguageConfig} {a b : ℤ} {p : ReadyProbe}
    (h : (probeLangExec lc).ComesTo (Seen (probes ttl version) s a b) p) :
    ProbeFound s a b (.lang lc) p.OK := by
  obtain ⟨⟨err, stdout, combined⟩, hrun, h⟩ := h
  cases err with
  | none =>
      obtain rfl := h
      exact .inl (during_of_seen hrun fun w hw => (congrArg CmdResult.err hw).symm)
  | some err =>
      have hfails : During s a b fun w => (w.run (probeCmd lc)).err ≠ none :=
        during_of_seen hrun fun w hw hnone =>
          Option.some_ne_none err ((congrArg CmdResult.err hw).trans hnone)
      obtain ⟨path, hlook, h⟩ := h
      cases path with
      | some path =>
          obtain rfl := h
          exact .inr ⟨⟨lc, rfl⟩, hfails,
            during_of_seen hlook fun w hw => congrArg Option.isSome hw.symm⟩
      | none =>
          obtain rfl := h
          exact ⟨hfails, fun _ _ => during_of_seen hlook fun w hw => hw.symm⟩

theorem nsjail_comesTo {a b : ℤ} {p : ReadyProbe}
    (h : (probeNsjail version).ComesTo (Seen (probes ttl version) s a b) p) :
    ProbeFound s a b .nsjail p.OK := by
  obtain ⟨⟨err, stdout, combined⟩, hrun, h⟩ := h
  cases err with
  | none =>
      obtain rfl := h
      exact .inl (during_of_seen hrun fun w hw => (congrArg CmdResult.err hw).symm)
  | some err =>
      obtain rfl := h
      refine ⟨during_of_seen hrun fun w hw hnone => ?_, fun lc hlc => by cases hlc⟩
      exact Option.some_ne_none err ((congrArg CmdResult.err hw).trans hnone)

theorem body_comesTo {q : ProbeQuery} {a b : ℤ} {p : ReadyProbe}
    (h : ((probes ttl version).body q).ComesTo (Seen (probes ttl version) s a b) p) :
    ProbeFound s a b q p.OK := by
  cases q with
  | nsjail => exact nsjail_comesTo h
  | lang lc => exact langExec_comesTo h

/-! ## What the cache tells -/

/-- The queries whose value may be given for another. -/
def SameKey : ProbeQuery → ProbeQuery → Prop
  | .nsjail, .nsjail => True
  | .lang lc, .lang lc' => lc.id = lc'.id
  | _, _ => False

theorem sameKey_of_eq {q q' : ProbeQuery} (h : probeKey q = probeKey q') : SameKey q q' := by
  cases q with
  | nsjail =>
      cases q' with
      | nsjail => trivial
      | lang lc => exact absurd (List.cons.inj h).1 (by decide)
  | lang lc =>
      cases q' with
      | nsjail => exact absurd (List.cons.inj h).1 (by decide)
      | lang lc' => exact List.append_cancel_left h

/-- What the cache tells of a query was so for one with its key. -/
theorem was_of_told (h : Reached (probes ttl version) s) {a : ℤ} {q : ProbeQuery}
    {p : ReadyProbe} (htold : Told (probes ttl version) s a (.get q) p) :
    ∃ q', SameKey q' q ∧ Was s ttl a q' p := by
  obtain ⟨c, hc, hkey, rfl, hstored⟩ := htold
  have hfound := body_comesTo (h.inv.cache.computed c hc).comesTo
  exact ⟨c.query, sameKey_of_eq hkey, c, hc, rfl, rfl, hstored, hfound⟩

/-- What the loop over the registry has: a probe for each language, in its order. -/
theorem languageProbes_comesTo {ok : (k : Ask ProbeQuery ProbeLook) →
    Answer ProbeAnswer ReadyProbe k → Prop} :
    ∀ {reg : Registry} {ps : List (GoString × ReadyProbe)},
      (languageProbes reg).ComesTo ok ps →
        List.Forall₂ (fun e l => l.1 = e.1 ∧ ok (.get (.lang e.2)) l.2) reg ps := by
  intro reg
  induction reg with
  | nil =>
      intro ps h
      obtain rfl := h
      exact .nil
  | cons e rest ih =>
      intro ps h
      obtain ⟨p, hp, h⟩ := h
      obtain ⟨qs, hqs, h⟩ := h.of_bind
      obtain rfl := h
      exact .cons ⟨rfl, hp⟩ (ih hqs)

/-- A registry was in force, in some order, after `a`. -/
def InForce (s : ProbeSt) (a : ℤ) (reg : Registry) : Prop :=
  ∃ t w, (t, w) ∈ s.past ∧ a ≤ t ∧ reg.Perm w.registry

/-- What the answer of `/readyz` tells on a registry, when the process does not shut down: a
recent probe of nsjail and, in the order of the registry, one of each language. A language is
known by its id. -/
def Tells (s : ProbeSt) (ttl a : ℤ) (reg : Registry) (nsjail : ReadyProbe)
    (languages : List (GoString × ReadyProbe)) : Prop :=
  Was s ttl a .nsjail nsjail ∧
    List.Forall₂ (fun e l => l.1 = e.1 ∧ ∃ q, SameKey q (.lang e.2) ∧ Was s ttl a q l.2)
      reg languages

theorem eq_nsjail {q : ProbeQuery} (h : SameKey q .nsjail) : q = .nsjail := by
  cases q with
  | nsjail => rfl
  | lang lc => exact h.elim

theorem tells_of_told (h : Reached (probes ttl version) s) {a : ℤ} {reg : Registry}
    {nsjail : ReadyProbe} {ps : List (GoString × ReadyProbe)}
    (hnsjail : Told (probes ttl version) s a (.get .nsjail) nsjail)
    (hps : List.Forall₂ (fun e l => l.1 = e.1 ∧
      Told (probes ttl version) s a (.get (.lang e.2)) l.2) reg ps) :
    Tells s ttl a reg nsjail ps := by
  obtain ⟨q, hq, hwas⟩ := was_of_told h hnsjail
  exact ⟨eq_nsjail hq ▸ hwas, hps.imp fun e l hel => ⟨hel.1, was_of_told h hel.2⟩⟩

/-- Good is the answer exactly when every probe in it succeeded. -/
theorem readyzStatus_eq (nsjail : ReadyProbe) (languages : List (GoString × ReadyProbe)) :
    (readyzStatus (readyStateOf nsjail languages) = 200 ∧
        (readyStateOf nsjail languages).status = str "ok" ∧
        nsjail.OK = true ∧ ∀ l ∈ languages, l.2.OK = true) ∨
      (readyzStatus (readyStateOf nsjail languages) = 503 ∧
        (readyStateOf nsjail languages).status = str "degraded" ∧
        (nsjail.OK = false ∨ ∃ l ∈ languages, l.2.OK = false)) := by
  cases hall : nsjail.OK && languages.all fun l => l.2.OK with
  | true =>
      left
      obtain ⟨hok, hlangs⟩ := Bool.and_eq_true_iff.mp hall
      exact ⟨by rw [readyzStatus, readyStateOf, if_pos hall], by rw [readyStateOf, if_pos hall],
        hok, List.all_eq_true.mp hlangs⟩
  | false =>
      right
      have hno : ¬ (nsjail.OK && languages.all fun l => l.2.OK) = true := by
        rw [hall]
        exact Bool.false_ne_true
      refine ⟨by rw [readyzStatus, readyStateOf, if_neg hno], by rw [readyStateOf, if_neg hno],
        (Bool.and_eq_false_iff.mp hall).imp_right fun hlangs => ?_⟩
      obtain ⟨l, hl, hok⟩ := List.all_eq_false.mp hlangs
      exact ⟨l, hl, Bool.eq_false_iff.mpr hok⟩

/-! ## Two requests

A request for `/info` probes nsjail. A second later one for `/readyz` comes, and it waits
while the first goes on to the language, whose command fails and whose binary is found. Then
the second is told both by the cache. -/

/-- One language, whose binary is there and does not run. -/
def oddProbes : ProbeWorld where
  shuttingDown := false
  registry := [(str "py", newLanguageConfig Runner.pyLang)]
  run := fun cmd =>
    if cmd = [str "nsjail", str "--help"] then ⟨none, [], str "nsjail 3.4"⟩
    else ⟨some (str "exit status 1"), [], []⟩
  lookPath := fun _ => some (str "/usr/bin/python3")

/-- The lifetime where nothing is set. -/
def usualTTL : ℤ := readProbeTTL fun _ => []

/-- The state where the language is probed and the other request waits, and the one where
that has been answered. -/
theorem oddProbes_runs :
    ∃ (s t : ProbeSt) (u v : ProbeRequest) (state : ReadyState),
      Reached (probes usualTTL id) s ∧ s.askers[1]? = some u ∧ u.pc.Going ∧
      s.began (probes usualTTL id) (probeKey (.lang (newLanguageConfig Runner.pyLang))) 0
        1000000000 = 1 ∧
      Reached (probes usualTTL id) t ∧ t.computed.length = 2 ∧ t.askers[1]? = some v ∧
      v.program = handleReadyz ∧ v.pc = .out (.done (.readyz state)) ∧
      readyzStatus state = 200 := by
  have hstays : probeLook .shuttingDown oddProbes (false : Bool) := rfl
  have hregistry : probeLook .registry oddProbes oddProbes.registry := .refl _
  have hnsjail : probeLook (.run [str "nsjail", str "--help"]) oddProbes
      ⟨none, [], str "nsjail 3.4"⟩ := rfl
  have hlang : probeLook (.run (probeCmd (newLanguageConfig Runner.pyLang))) oddProbes
      ⟨some (str "exit status 1"), [], []⟩ := rfl
  have hpath : ∀ binary, probeLook (.lookPath binary) oddProbes
      (some (str "/usr/bin/python3")) := fun _ => rfl
  have h₀ : Reached (β := ProbeReply) (probes usualTTL id) _ := .start 0 oddProbes
  have h₁ := h₀.next (.arrive handleInfo)
  have h₂ := h₁.next (.move 0 (.lock rfl rfl rfl))
  have h₃ := h₂.next (.move 0 (.miss rfl rfl (St.not_warm rfl)))
  have h₄ := h₃.next (.move 0 (.act rfl rfl hnsjail))
  have h₅ := h₄.next (.move 0 (.store rfl rfl))
  have h₆ := h₅.next (.tick (show (0 : ℤ) ≤ 1000000000 by decide))
  have h₇ := h₆.next (.arrive handleReadyz)
  have h₈ := h₇.next (.move 1 (.look rfl rfl hstays))
  have h₉ := h₈.next (.move 0 (.look rfl rfl hregistry))
  have h₁₀ := h₉.next (.move 0 (.lock rfl rfl rfl))
  have h₁₁ := h₁₀.next (.move 0 (.miss rfl rfl (St.not_warm rfl)))
  have h₁₂ := h₁₁.next (.move 0 (.act rfl rfl hlang))
  have h₁₃ := h₁₂.next (.move 0 (.act rfl rfl (hpath _)))
  have h₁₄ := h₁₃.next (.move 0 (.store rfl rfl))
  have h₁₅ := h₁₄.next (.move 1 (.lock rfl rfl rfl))
  have h₁₆ := h₁₅.next (.move 1 (.hit rfl rfl ⟨0, rfl, by decide⟩))
  have h₁₇ := h₁₆.next (.move 1 (.look rfl rfl hregistry))
  have h₁₈ := h₁₇.next (.move 1 (.lock rfl rfl rfl))
  have h₁₉ := h₁₈.next (.move 1 (.hit rfl rfl ⟨1000000000, rfl, by decide⟩))
  exact ⟨_, _, _, _, _, h₁₁, rfl, trivial, rfl, h₁₉, rfl, rfl, rfl, rfl, rfl⟩

/-! ## The answers -/

/-- Every answer of `/readyz` was so shortly before the request came or since: a shutdown had
begun, or there are a registry in force and recent probes of all its parts which all succeeded,
for 200, or of which one did not, for 503. -/
theorem readyz_says (h : Reached (probes ttl version) s) {u : ProbeRequest} (hu : u ∈ s.askers)
    (hprogram : u.program = handleReadyz) {state : ReadyState}
    (hpc : u.pc = .out (.done (.readyz state))) :
    (readyzStatus state = 503 ∧ state.status = str "shutting_down" ∧
      ∃ t w, (t, w) ∈ s.past ∧ u.arrived ≤ t ∧ w.shuttingDown = true) ∨
    ∃ reg nsjail, InForce s u.arrived reg ∧ state.nsjail = some nsjail ∧
      Tells s ttl u.arrived reg nsjail state.languages ∧
      ((readyzStatus state = 200 ∧ state.status = str "ok" ∧
          nsjail.OK = true ∧ ∀ l ∈ state.languages, l.2.OK = true) ∨
        (readyzStatus state = 503 ∧ state.status = str "degraded" ∧
          (nsjail.OK = false ∨ ∃ l ∈ state.languages, l.2.OK = false))) := by
  have htold := h.told hu hpc
  rw [hprogram] at htold
  obtain ⟨state', ⟨stopping, ⟨b, t, w, hm, ha, -, hstopping⟩, hrest⟩, heq⟩ := htold.of_bind
  obtain rfl := ProbeReply.readyz.inj heq
  obtain rfl : stopping = w.shuttingDown := hstopping
  cases hw : w.shuttingDown with
  | true =>
      rw [hw] at hrest
      obtain rfl := hrest
      exact .inl ⟨rfl, rfl, t, w, hm, ha, hw⟩
  | false =>
      rw [hw] at hrest
      obtain ⟨nsjail, hnsjail, reg, ⟨b', t', w', hm', ha', -, hreg⟩, hlangs⟩ := hrest
      obtain ⟨ps, hps, hdone⟩ := hlangs.of_bind
      obtain rfl := hdone
      exact .inr ⟨reg, nsjail, ⟨t', w', hm', ha', hreg⟩, rfl,
        tells_of_told h hnsjail (languageProbes_comesTo hps), readyzStatus_eq nsjail ps⟩

theorem readyz_says_cached :
    ∃ (s : ProbeSt) (u : ProbeRequest) (state : ReadyState) (reg : Registry)
      (nsjail : ReadyProbe), Reached (probes usualTTL id) s ∧ u ∈ s.askers ∧
      s.computed.length = 2 ∧ readyzStatus state = 200 ∧ InForce s u.arrived reg ∧
      Tells s usualTTL u.arrived reg nsjail state.languages := by
  obtain ⟨-, s, -, u, state, -, -, -, -, h, hcount, hu, hprogram, hpc, hgood⟩ := oddProbes_runs
  have hmem := List.mem_of_getElem? hu
  rcases readyz_says h hmem hprogram hpc with ⟨hbad, -⟩ | ⟨reg, nsjail, hreg, -, htells, -⟩
  · rw [hgood] at hbad
    cases hbad
  · exact ⟨s, u, state, reg, nsjail, h, hmem, hcount, hgood, hreg, htells⟩

/-- Probes are rare: one runs at a time, in any window of one key begin no more than lifetimes
fit into it and one, the one that runs among them, and a request that has not been answered
waits for one that can go on. -/
theorem probes_rare (h : Reached (probes ttl version) s) (httl : 0 < ttl) :
    (∀ (i j : ℕ) (u v : ProbeRequest), s.askers[i]? = some u → s.askers[j]? = some v →
      u.pc.Computing → v.pc.Computing → i = j) ∧
    (∀ (k : GoString) (a b : ℤ), a ≤ b →
      s.began (probes ttl version) k a b * ttl ≤ (b - a) + ttl) ∧
    ∀ (i : ℕ) (u : ProbeRequest), s.askers[i]? = some u → u.pc.Going →
      ∃ j t, Move (probes ttl version) j s t := by
  refine ⟨fun i j u v hu hv => h.alone hu hv, fun k a b hab => h.rate httl k hab,
    fun i u hu hgoing => h.goes ?_ ?_ hu hgoing⟩
  · intro c w
    cases c with
    | shuttingDown => exact ⟨_, rfl⟩
    | registry => exact ⟨_, .refl _⟩
    | run cmd => exact ⟨_, rfl⟩
    | lookPath binary => exact ⟨_, rfl⟩
  · intro q
    have hexec : ∀ cmd, (probeExecArgs cmd).Ends := by
      rintro cmd ⟨err, stdout, combined⟩
      cases err with
      | none => trivial
      | some err => rintro (_ | path) <;> trivial
    cases q with
    | nsjail =>
        rintro ⟨err, stdout, combined⟩
        cases err <;> trivial
    | lang lc => exact hexec (probeCmd lc)

theorem probes_rare_waiting :
    ∃ (s : ProbeSt) (u : ProbeRequest), Reached (probes usualTTL id) s ∧
      s.askers[1]? = some u ∧ u.pc.Going ∧
      s.began (probes usualTTL id) (probeKey (.lang (newLanguageConfig Runner.pyLang))) 0
        1000000000 * usualTTL ≤ (1000000000 - 0) + usualTTL ∧
      ∃ j t, Move (probes usualTTL id) j s t := by
  obtain ⟨s, -, u, -, -, h, hu, hgoing, -⟩ := oddProbes_runs
  obtain ⟨-, hrate, hgoes⟩ := probes_rare h (by decide)
  exact ⟨s, u, h, hu, hgoing, hrate _ 0 1000000000 (by decide), hgoes 1 u hu hgoing⟩

end Goboxd.Api
