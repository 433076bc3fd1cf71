import Goboxd.Cgroupv2.Hog
import Goboxd.Lib.GoSearch
import Goboxd.Proofs.CgroupRemoval

/-!
# What the enforcement probe trusts

The manager is active only on a hierarchy that was seen to charge. What is proved here holds
with any call failing at any moment, with the hog killed whenever one likes, and however its
steps fall between the probe's: none of it depends on the order. Two facts are kept by every
step of either party. The groups stay as shallow as they were, up to the three names of the
probe's leaf, which is why the removal of whatever a crashed run left behind comes to an
end. And a counter of the leaf only ever holds what the kernel charges, which is nothing
where it does not charge; so a peak of eight megabytes, read as text and parsed again, is
evidence.
-/

namespace Goboxd.Cgroupv2

open Go Cgroup Calls Hierarchy

/-! ## Reading the leaf's counters -/

theorem solid_numeral {encs : List GoString} {s : GoString} {n : Nat} (h : Numeral s n)
    (hencs : ∀ e ∈ encs, e ≠ [] ∧ ∀ c ∈ e, ¬(48 ≤ c ∧ c ≤ 57)) : Solid encs s := by
  intro c hc e he
  refine ⟨fun hhead => ?_, (hencs e he).1⟩
  exact h.not_mem ((hencs e he).2 c (List.mem_of_mem_head? hhead)) hc

theorem atoi_counter {n : Nat} (h : n < 2 ^ 63) :
    atoi (trimSpace (itoa n ++ [10])) = some (n : Int) := by
  have hspaces : ∀ e ∈ spaceEncodings, e ≠ [] ∧ ∀ c ∈ e, ¬(48 ≤ c ∧ c ≤ 57) := by
    have hall : ∀ e ∈ spaceEncodings, e ≠ [] ∧ e.all (fun c => ¬(48 ≤ c ∧ c ≤ 57)) = true := by
      decide
    intro e he
    refine ⟨(hall e he).1, fun c hc => ?_⟩
    have hc := List.all_eq_true.mp (hall e he).2 c hc
    rwa [decide_eq_true_iff] at hc
  have hreverse : ∀ e ∈ spaceEncodings.map List.reverse,
      e ≠ [] ∧ ∀ c ∈ e, ¬(48 ≤ c ∧ c ≤ 57) := by
    intro r hr
    obtain ⟨e, he, rfl⟩ := List.mem_map.mp hr
    exact ⟨by simpa using (hspaces e he).1, fun c hc =>
      (hspaces e he).2 c (List.mem_reverse.mp hc)⟩
  have htrim : trimSpace ([] ++ (itoa n ++ [10])) = itoa n :=
    trimSpace_padded (by simp [Blank]) (by simp [Blank]) (itoa_ne_nil n)
      (solid_numeral (numeral_itoa n) hspaces) (solid_numeral (numeral_itoa n) hreverse)
  rw [List.nil_append] at htrim
  rw [htrim, atoi_itoa]
  unfold InRange maxInt
  omega

theorem usageOfLines_counter {n : Nat} (h : n < 2 ^ 63) :
    usageOfLines [] (split 10 (counterFile [(str "usage_usec", n)])) = .ok (n : Int) := by
  have hname : CounterName (str "usage_usec") := ⟨by decide, by decide, by decide⟩
  have hrange : InRange (n : Int) := by
    unfold InRange maxInt
    omega
  rw [split_counterFile hname, usageOfLines,
    fields_pair hname.nonempty (itoa_ne_nil n) hname.solid (itoa_solid n)]
  simp only [if_true, atoi_itoa hrange]

/-! ## What any step keeps -/

section Steps

variable {K : Kernel} {faults : Bool} {D : ℕ} {s t : Probed} {c : Call} {x : Answer c}

/-- No group is named by more than `D` names. -/
def Shallow (D : ℕ) (s : Probed) : Prop := ∀ q ∈ s.tree.groups, q.length ≤ D

/-- Nothing was charged to the leaf that the kernel does not charge. -/
def Charged (K : Kernel) (s : Probed) : Prop :=
  s.peak ≤ (if K.charges then hogBytes + K.extra else 0) ∧
    s.usage ≤ if K.cpuCharges then K.spun else 0

theorem does_cases {r : Except Errno Probed} {x : Except Errno Unit} (h : Does s r x t) :
    r = .ok t ∧ x = .ok () ∨ (∃ e, r = .error e ∧ x = .error e) ∧ t = s := by
  cases r with
  | ok u =>
      obtain ⟨rfl, rfl⟩ := h
      exact .inl ⟨rfl, rfl⟩
  | error e =>
      obtain ⟨rfl, rfl⟩ := h
      exact .inr ⟨⟨e, rfl, rfl⟩, rfl⟩

theorem without_groups (s : Probed) (pc : HogPc) :
    (s.without pc).tree.groups = s.tree.groups := by
  unfold Probed.without
  cases s.hog.inLeaf <;> rfl

theorem others_groups (h : (probing K faults).others s t) : t.tree.groups = s.tree.groups := by
  rcases h with h | ⟨-, -, rfl⟩
  · cases h with
    | read => rfl
    | eof => exact without_groups s _
    | allocate => rfl
    | spin => exact without_groups _ _
  · exact without_groups s _

theorem others_charged (h : (probing K faults).others s t) (hs : Charged K s) : Charged K t := by
  obtain ⟨hpeak, husage⟩ := hs
  rcases h with h | ⟨-, -, rfl⟩
  · cases h with
    | read => exact ⟨hpeak, husage⟩
    | eof => exact ⟨hpeak, husage⟩
    | allocate =>
        refine ⟨?_, husage⟩
        show (if _ then _ else _) ≤ _
        cases s.hog.inLeaf <;> cases hc : K.charges <;> simp_all
    | spin =>
        refine ⟨hpeak, ?_⟩
        show (if _ then _ else _) ≤ _
        cases s.hog.inLeaf <;> cases hc : K.cpuCharges <;> simp_all
  · exact ⟨hpeak, husage⟩

/-- What a call may do: make the group it names, take groups away, set the counters to
zero. -/
structure Effect (c : Call) (s t : Probed) : Prop where
  groups : ∀ q ∈ t.tree.groups, q ∈ s.tree.groups ∨ c = .mkdir q ∨ c = .mkdirAll q
  peak : t.peak = s.peak ∨ t.peak = 0
  usage : t.usage = s.usage ∨ t.usage = 0

theorem Effect.refl (c : Call) (s : Probed) : Effect c s s :=
  ⟨fun _ hq => .inl hq, .inl rfl, .inl rfl⟩

theorem make_effect {path : Path} (h : s.make path = .ok t)
    (hc : c = .mkdir path ∨ c = .mkdirAll path) : Effect c s t := by
  unfold Probed.make at h
  split at h
  · cases h
  · next tree htree =>
      cases h
      refine ⟨fun q hq => ?_, ?_, ?_⟩
      · unfold Hierarchy.mkdir at htree
        split at htree
        · cases htree
        · split at htree
          · cases htree
            rcases List.mem_cons.mp hq with rfl | hq
            · exact .inr hc
            · exact .inl hq
          · cases htree
      · simp only []
        split
        · exact .inr rfl
        · exact .inl rfl
      · simp only []
        split
        · exact .inr rfl
        · exact .inl rfl

theorem write_effect (s : Probed) (c : Call) (path : Path) : Effect c s (s.write path) := by
  unfold Probed.write
  split
  · refine ⟨fun q hq => .inl ?_, .inl rfl, .inl rfl⟩
    have hgroups : (if hp : probeLeaf ∈ s.tree.groups then s.tree.enter probeLeaf hp
        else s.tree).groups = s.tree.groups := by
      split <;> rfl
    exact hgroups ▸ hq
  · exact .refl c s

/-- Of a call that answers with a new state or an error. -/
theorem does_effect {r : Except Errno Probed} {x : Except Errno Unit} (h : Does s r x t)
    (hr : r = .ok t → Effect c s t) : Effect c s t := by
  rcases does_cases h with ⟨hok, -⟩ | ⟨-, rfl⟩
  · exact hr hok
  · exact .refl c t

theorem act_effect (h : (probing K faults).act c s x t) : Effect c s t := by
  rcases h with h | ⟨-, -, rfl⟩
  · cases c with
    | getenv key | statfs | readDir path | readFile path | stdinPipe | wait =>
        rw [h.2]
        exact .refl _ s
    | mkdirAll path =>
        refine does_effect h fun hmake => ?_
        unfold Probed.makeAll at hmake
        split at hmake
        · cases hmake
          exact .refl _ s
        · exact make_effect hmake (.inr rfl)
    | mkdir path => exact does_effect h fun hmake => make_effect hmake (.inl rfl)
    | remove path =>
        obtain ⟨hr, -, hpeak, husage⟩ := h
        exact ⟨fun q hq => .inl (hr.shrinks.groups hq), .inl hpeak, .inl husage⟩
    | writeFile path text =>
        refine does_effect h fun hwrite => ?_
        split at hwrite
        · cases hwrite
          exact write_effect s _ path
        · cases hwrite
    | writeStdin text =>
        refine does_effect h fun hwrite => ?_
        split at hwrite
        · cases hwrite
          exact ⟨fun q hq => .inl hq, .inl rfl, .inl rfl⟩
        · cases hwrite
    | start | closeStdin =>
        rw [h.2]
        exact ⟨fun q hq => .inl hq, .inl rfl, .inl rfl⟩
    | kill =>
        have ht : t = if s.hog.alive then s.without .killed else s := h
        rw [ht]
        split
        · exact ⟨fun q hq => .inl (without_groups s _ ▸ hq), .inl rfl, .inl rfl⟩
        · exact .refl _ s
    | sleep =>
        have ht : t = s := h
        rw [ht]
        exact .refl _ s
  · exact .refl c t

theorem Effect.charged (he : Effect c s t) (hs : Charged K s) : Charged K t := by
  refine ⟨?_, ?_⟩
  · rcases he.peak with h | h <;> rw [h]
    · exact hs.1
    · exact Nat.zero_le _
  · rcases he.usage with h | h <;> rw [h]
    · exact hs.2
    · exact Nat.zero_le _

theorem Effect.shallow (he : Effect c s t) (hs : Shallow D s)
    (hc : ∀ q, c = .mkdir q ∨ c = .mkdirAll q → q.length ≤ D) : Shallow D t := by
  intro q hq
  rcases he.groups q hq with hq | hq
  · exact hs q hq
  · exact hc q hq

end Steps

/-! ## What a trusted hierarchy was seen to do -/

section Trust

variable {K : Kernel} {faults : Bool} {D : ℕ} {s t : Probed} {α β : Type}

/-- What every step keeps. -/
def Kept (K : Kernel) (D : ℕ) (s : Probed) : Prop := Shallow D s ∧ Charged K s

theorem kept_between (h : (probing K faults).Between s t) (hs : Kept K D s) : Kept K D t := by
  refine h.keeps (I := Kept K D) (fun u v huv hu => ?_) hs
  exact ⟨fun q hq => hu.1 q (others_groups huv ▸ hq), others_charged huv hu.2⟩

/-- A call makes no deep group. -/
def Call.Within (D : ℕ) (c : Call) : Prop := ∀ q, c = .mkdir q ∨ c = .mkdirAll q → q.length ≤ D

theorem kept_act {c : Call} {x : Answer c} (h : (probing K faults).act c s x t)
    (hc : c.Within D) (hs : Kept K D s) : Kept K D t :=
  ⟨(act_effect h).shallow hs.1 hc, (act_effect h).charged hs.2⟩

theorem ask_kept {c : Call} (hc : c.Within D) (hs : Kept K D s) :
    (ask c : Prog (Answer c)).Meets (probing K faults) (fun x t => Kept K D t ∧
      ∃ u v, Kept K D u ∧ (probing K faults).act c u x v) s := by
  intro u hu x v hv t ht
  have hku := kept_between hu hs
  exact ⟨kept_between ht (kept_act hv hc hku), u, v, hku, hv⟩

theorem done_kept {Q : α → Prop} {a : α} (ha : Q a) (hs : Kept K D s) :
    (done a : Prog α).Meets (probing K faults) (fun r t => Kept K D t ∧ Q r) s :=
  fun _ ht => ⟨kept_between ht hs, ha⟩

theorem orFail_kept {p : Prog (Except Errno α)} {err : Errno → ProbeErr}
    {next : α → Prog (Except ProbeErr β)} {P : α → Prop} {Good : β → Prop}
    (hp : p.Meets (probing K faults) (fun x t => Kept K D t ∧ ∀ a, x = .ok a → P a) s)
    (hnext : ∀ a t, P a → Kept K D t → (next a).Meets (probing K faults)
      (fun r t => Kept K D t ∧ ∀ c, r = .ok c → Good c) t) :
    (orFail p err next).Meets (probing K faults)
      (fun r t => Kept K D t ∧ ∀ c, r = .ok c → Good c) s := by
  refine Meets.bind (hp.mono ?_)
  rintro x t ⟨ht, hx⟩
  cases x with
  | ok a => exact hnext a t (hx a rfl) ht
  | error e => exact done_kept (by simp) ht

theorem removeDirs_kept {rd : Path → Prog (Except Errno Unit)} {p : Path}
    {entries : List (GoString × Bool)}
    (hrd : ∀ n, (n, true) ∈ entries → ∀ t, Kept K D t →
      (rd (p ++ [n])).Meets (probing K faults) (fun _ => Kept K D) t) (hs : Kept K D s) :
    (removeDirs rd p entries).Meets (probing K faults) (fun _ => Kept K D) s := by
  induction entries generalizing s with
  | nil => exact fun t ht => kept_between ht hs
  | cons e rest ih =>
      obtain ⟨name, isDir⟩ := e
      have hrest := fun {t} (ht : Kept K D t) => ih (fun n hn =>
        hrd n (List.mem_cons_of_mem _ hn)) ht
      cases isDir with
      | false => exact hrest hs
      | true => exact Meets.bind ((hrd name List.mem_cons_self s hs).mono fun _ t ht => hrest ht)

theorem removeFiles_kept {p : Path} {names : List GoString} (hs : Kept K D s) :
    (removeFiles p names).Meets (probing K faults) (fun _ => Kept K D) s := by
  induction names generalizing s with
  | nil => exact fun t ht => kept_between ht hs
  | cons name rest ih =>
      refine Meets.bind (p := remove (p ++ [name])) ((ask_kept ?_ hs).mono fun _ t ht => ih ht.1)
      intro q hq
      simp at hq

theorem removeJailDir_kept {p : Path} {fuel : ℕ} (hfuel : D < p.length + fuel)
    (hpos : 0 < fuel) (hs : Kept K D s) :
    (removeJailDir fuel p).Meets (probing K faults) (fun _ => Kept K D) s := by
  induction fuel generalizing p s with
  | zero => cases hpos
  | succ fuel ih =>
      have hend : ∀ u, Kept K D u →
          (removeFiles p jailFiles >>= fun _ => remove p).Meets (probing K faults)
            (fun _ => Kept K D) u := by
        intro u hu
        refine Meets.bind ((removeFiles_kept hu).mono fun _ v hv => ?_)
        exact (ask_kept (fun q hq => by simp at hq) hv).mono fun _ w hw => hw.1
      intro s₁ h₁ x s₂ hlist
      have hs₁ := kept_between h₁ hs
      have hs₂ := kept_act hlist (fun q hq => by simp at hq) hs₁
      cases x with
      | error e => exact hend s₂ hs₂
      | ok entries =>
          refine Meets.bind (p := removeDirs _ p entries)
            ((removeDirs_kept (fun n hn t ht => ?_) hs₂).mono fun _ v hv => hend v hv)
          rcases hlist with ⟨hlist, -⟩ | ⟨-, ⟨e, he⟩, -⟩
          · cases hlist with
            | groups hp hall =>
                have hlen := hs₁.1 _ ((hall n).mp hn)
                rw [List.length_append, List.length_singleton] at hlen
                refine ih ?_ (by omega) ht
                rw [List.length_append, List.length_singleton]
                omega
          · cases he

theorem removeProbe_kept {fuel : ℕ} (hD : 3 ≤ D) (hfuel : D < fuel) (hs : Kept K D s) :
    (removeProbe fuel probeDir).Meets (probing K faults) (fun _ => Kept K D) s := by
  refine Meets.bind ((removeJailDir_kept (by omega) (by omega) hs).mono fun _ t ht => ?_)
  refine Meets.bind ((removeJailDir_kept (by omega) (by omega) ht).mono fun _ u hu => ?_)
  exact fun v hv => kept_between hv hu

theorem sweep_kept {p : Path} {fuel : ℕ} (hfuel : D < fuel) (hs : Kept K D s) :
    (Sweep fuel p).Meets (probing K faults) (fun _ => Kept K D) s := by
  intro s₁ h₁ x s₂ hlist
  have hs₂ := kept_act hlist (fun q hq => by simp at hq) (kept_between h₁ hs)
  cases x with
  | error e => exact fun t ht => kept_between ht hs₂
  | ok entries =>
      show (removeDirs _ p entries).Meets _ _ _
      exact removeDirs_kept (fun n _ t ht => removeJailDir_kept (by omega) (by omega) ht) hs₂

/-- What the cpu verdict stands for. -/
def CpuSeen (K : Kernel) (cpuActive c : Bool) : Prop :=
  c = true → cpuActive = true ∧ K.cpuCharges = true ∧ 1000000 ≤ K.spun

theorem verifyCPU_kept {cpuActive : Bool} (hs : Kept K D s) :
    (verifyCPU cpuActive probeLeaf).Meets (probing K faults)
      (fun c t => Kept K D t ∧ CpuSeen K cpuActive c) s := by
  cases cpuActive with
  | false => exact done_kept (by simp [CpuSeen]) hs
  | true =>
      refine Meets.bind (p := readFile (probeLeaf ++ [str "cpu.stat"]))
        ((ask_kept (fun q hq => by simp at hq) hs).mono ?_)
      rintro x t ⟨ht, u, v, hu, hread⟩
      have hno : CpuSeen K true false := fun hf => by cases hf
      cases x with
      | error e => exact done_kept hno ht
      | ok text =>
          have htext : text = counterFile [(str "usage_usec", u.usage)] := by
            rcases hread with ⟨hread, -⟩ | ⟨-, ⟨e, he⟩, -⟩
            · unfold Probed.read at hread
              split at hread
              · cases hread
              · split at hread
                · next hpath => exact absurd hpath (by decide)
                · split at hread
                  · cases hread
                    rfl
                  · cases hread
            · cases he
          have husage : u.usage ≤ K.spun := by
            have := hu.2.2
            split at this <;> omega
          have hlines := usageOfLines_counter (n := u.usage)
            (Nat.lt_of_le_of_lt husage K.counted.2)
          rw [htext]
          simp only []
          rw [hlines]
          refine done_kept (fun hc => ⟨rfl, ?_⟩) ht
          have hmin : ¬ (u.usage : Int) < 1000000 := by
            simpa [probeMinCPUUsageUS] using hc
          have hcharged := hu.2.2
          split at hcharged
          · next hcharges => exact ⟨hcharges, by omega⟩
          · omega

/-- What it takes for the probe to end well, with the cpu verdict `c`. -/
def Seen (K : Kernel) (cpuActive c : Bool) : Prop :=
  K.swap = true ∧ K.charges = true ∧ CpuSeen K cpuActive c

theorem verifyPeak_kept {cpuActive : Bool} (hs : Kept K D s) :
    (verifyPeak cpuActive probeLeaf).Meets (probing K faults)
      (fun r t => Kept K D t ∧ ∀ c, r = .ok c → K.charges = true ∧ CpuSeen K cpuActive c) s := by
  refine orFail_kept (P := fun text => ∃ u, Kept K D u ∧ text = itoa (u.peak : Nat) ++ [10])
    ((ask_kept (c := .readFile (probeLeaf ++ [str "memory.peak"])) (fun q hq => by simp at hq)
      hs).mono ?_) ?_
  · rintro x t ⟨ht, u, v, hu, hread⟩
    refine ⟨ht, fun text hx => ⟨u, hu, ?_⟩⟩
    subst hx
    rcases hread with ⟨hread, -⟩ | ⟨-, ⟨e, he⟩, -⟩
    · unfold Probed.read at hread
      split at hread
      · cases hread
      · split at hread
        · cases hread
          rfl
        · next hpath => exact absurd rfl hpath
    · cases he
  · rintro text t ⟨u, hu, rfl⟩ ht
    have hpeak : u.peak ≤ hogBytes + K.extra := by
      have := hu.2.1
      split at this <;> omega
    rw [atoi_counter (Nat.lt_of_le_of_lt hpeak K.counted.1)]
    simp only []
    have hmin : 0 < probeMinPeak := by decide
    generalize probeMinPeak = least at hmin
    refine meets_ite (fun _ => done_kept (by simp) ht) fun hlow => ?_
    have hcharges : K.charges = true := by
      have hcharged := hu.2.1
      split at hcharged
      · next hc => exact hc
      · omega
    refine Meets.bind ((verifyCPU_kept ht).mono ?_)
    rintro c v ⟨hv, hc⟩
    refine done_kept (fun c' hc' => ?_) hv
    cases hc'
    exact ⟨hcharges, hc⟩

theorem releaseHog_kept (hs : Kept K D s) :
    releaseHog.Meets (probing K faults) (fun _ => Kept K D) s := by
  refine Meets.bind (p := writeStdin (str "go")) ((ask_kept (fun q hq => by simp at hq) hs).mono ?_)
  rintro x t ⟨ht, -⟩
  have hclose : ∀ u, Kept K D u →
      (closeStdin >>= fun _ => (pure () : Prog Unit)).Meets (probing K faults)
        (fun _ => Kept K D) u := by
    intro u hu
    refine Meets.bind (p := closeStdin) ((ask_kept (fun q hq => by simp at hq) hu).mono ?_)
    exact fun _ v hv w hw => kept_between hw hv.1
  cases x with
  | ok _ => exact hclose t ht
  | error e =>
      refine Meets.bind (p := kill) ((ask_kept (fun q hq => by simp at hq) ht).mono ?_)
      exact fun _ u hu => hclose u hu.1

theorem runHog_kept {cpuActive : Bool} (hs : Kept K D s) :
    (runHog cpuActive probeLeaf).Meets (probing K faults)
      (fun r t => Kept K D t ∧ ∀ c, r = .ok c → K.charges = true ∧ CpuSeen K cpuActive c) s := by
  refine orFail_kept (P := fun _ => True)
    ((ask_kept (c := .stdinPipe) (fun q hq => by simp at hq) hs).mono
      fun _ _ ht => ⟨ht.1, fun _ _ => trivial⟩) fun _ t _ ht => ?_
  refine orFail_kept (P := fun _ => True)
    ((ask_kept (c := .start) (fun q hq => by simp at hq) ht).mono
      fun _ _ hu => ⟨hu.1, fun _ _ => trivial⟩) fun pid u _ hu => ?_
  refine Meets.bind (p := writeFile (probeLeaf ++ [str "cgroup.procs"]) (itoa pid))
    ((ask_kept (fun q hq => by simp at hq) hu).mono ?_)
  rintro x v ⟨hv, -⟩
  cases x with
  | error e =>
      refine Meets.bind (p := kill) ((ask_kept (fun q hq => by simp at hq) hv).mono ?_)
      exact fun _ w hw => done_kept (by simp) hw.1
  | ok _ =>
      refine Meets.bind ((releaseHog_kept hv).mono fun _ w hw => ?_)
      exact orFail_kept (P := fun _ => True)
        ((ask_kept (c := .wait) (fun q hq => by simp at hq) hw).mono
          fun _ _ hx => ⟨hx.1, fun _ _ => trivial⟩) fun _ z _ hz => verifyPeak_kept hz

theorem takes_concat {dir : Path} {file text : GoString} :
    s.takes K (dir ++ [file]) text =
      (decide (dir ∈ s.tree.groups) && s.takesAs K dir file text) := by
  simp [Probed.takes]

/-- A write that was answered well was taken. -/
theorem takes_of_ok {path : Path} {text : GoString} {x : Except Errno Unit}
    (h : (probing K faults).act (.writeFile path text) s x t) (hx : x = .ok ()) :
    s.takes K path text = true := by
  subst hx
  rcases h with h | ⟨-, ⟨e, he⟩, -⟩
  · rcases does_cases h with ⟨hwrite, -⟩ | ⟨⟨e, -, he⟩, -⟩
    · by_contra hno
      rw [if_neg hno] at hwrite
      cases hwrite
    · cases he
  · cases he

theorem enforcementCheck_kept {cpuActive : Bool} (hD : 3 ≤ D) (hs : Kept K D s) :
    (enforcementCheck cpuActive probeDir).Meets (probing K faults)
      (fun r t => Kept K D t ∧ ∀ c, r = .ok c → Seen K cpuActive c) s := by
  have hleaf : Call.Within D (.mkdir probeLeaf) := by
    rintro q (hq | hq)
    · cases hq
      exact hD
    · cases hq
  refine orFail_kept (P := fun _ => True)
    ((ask_kept (c := .writeFile _ _) (fun q hq => by simp at hq) hs).mono
      fun _ _ ht => ⟨ht.1, fun _ _ => trivial⟩) fun _ t _ ht => ?_
  refine orFail_kept (P := fun _ => True)
    ((ask_kept (c := .mkdir probeLeaf) hleaf ht).mono
      fun _ _ hu => ⟨hu.1, fun _ _ => trivial⟩) fun _ u _ hu => ?_
  refine orFail_kept (P := fun _ => True)
    ((ask_kept (c := .writeFile _ _) (fun q hq => by simp at hq) hu).mono
      fun _ _ hv => ⟨hv.1, fun _ _ => trivial⟩) fun _ v _ hv => ?_
  refine orFail_kept (P := fun _ => K.swap = true)
    ((ask_kept (c := .writeFile _ _) (fun q hq => by simp at hq) hv).mono ?_) fun _ w hswap hw => ?_
  · rintro x w ⟨hw, y, z, -, hact⟩
    refine ⟨hw, fun _ hx => ?_⟩
    have htakes := takes_of_ok hact hx
    rw [takes_concat, Bool.and_eq_true] at htakes
    have hcontrol : str "memory.swap.max" ≠ str "cgroup.subtree_control" := by decide
    have hmax : str "memory.swap.max" ≠ str "memory.max" := by decide
    simpa [Probed.takesAs, hcontrol, hmax] using htakes.2
  · exact (runHog_kept hw).mono fun r z hz => ⟨hz.1, fun c hc => ⟨hswap, hz.2 c hc⟩⟩

theorem verifyEnforcement_kept {cpuActive : Bool} {fuel : ℕ} (hD : 3 ≤ D) (hfuel : D < fuel)
    (hs : Kept K D s) :
    (verifyEnforcement fuel [baseName] cpuActive).Meets (probing K faults)
      (fun r t => Kept K D t ∧ ∀ c, r = .ok c → Seen K cpuActive c) s := by
  have hdir : Call.Within D (.mkdir probeDir) := by
    rintro q (hq | hq)
    · cases hq
      exact Nat.le_of_succ_le hD
    · cases hq
  refine Meets.bind (p := removeProbe fuel probeDir)
    ((removeProbe_kept hD hfuel hs).mono fun _ t ht => ?_)
  refine orFail_kept (P := fun _ => True)
    ((ask_kept (c := .mkdir probeDir) hdir ht).mono
      fun _ _ hu => ⟨hu.1, fun _ _ => trivial⟩) fun _ u _ hu => ?_
  refine Meets.bind ((enforcementCheck_kept hD hu).mono fun r v hv => ?_)
  refine Meets.bind ((removeProbe_kept hD hfuel hv.1).mono fun _ w hw => ?_)
  exact done_kept hv.2 hw

theorem enableControllers_kept (hs : Kept K D s) :
    (enableControllers [baseName]).Meets (probing K faults)
      (fun r t => Kept K D t ∧ ∀ c, r = .ok c →
        K.delegated = true ∧ (c = true → K.cpuDelegated = true)) s := by
  have hcpu : str "+memory +pids +cpu" ≠ str "+memory +pids" := by decide
  refine Meets.bind (p := writeFile (subtreeControl [baseName]) (str "+memory +pids +cpu"))
    ((ask_kept (fun q hq => by simp at hq) hs).mono ?_)
  rintro x t ⟨ht, u, v, -, hact⟩
  cases x with
  | ok _ =>
      have htakes := takes_of_ok hact rfl
      rw [subtreeControl, takes_concat, Bool.and_eq_true] at htakes
      refine done_kept (fun c _ => ?_) ht
      have henables : K.delegated = true ∧ K.cpuDelegated = true := by
        simpa [Probed.takesAs, Kernel.enables, hcpu] using htakes.2
      exact ⟨henables.1, fun _ => henables.2⟩
  | error e =>
      refine orFail_kept (P := fun _ => K.delegated = true)
        ((ask_kept (c := .writeFile _ _) (fun q hq => by simp at hq) ht).mono ?_) ?_
      · rintro x w ⟨hw, y, z, -, hact⟩
        refine ⟨hw, fun _ hx => ?_⟩
        have htakes := takes_of_ok hact hx
        rw [subtreeControl, takes_concat, Bool.and_eq_true] at htakes
        simpa [Probed.takesAs, Kernel.enables, hcpu.symm] using htakes.2
      · exact fun _ w hdel hw => done_kept (fun c hc => ⟨hdel, fun htrue => by
          cases hc
          cases htrue⟩) hw

/-- The host is one on which limits can be enforced. -/
def Kernel.Enforces (K : Kernel) : Prop :=
  K.env ≠ str "off" ∧ K.fsType = cgroup2Magic ∧ K.delegated = true ∧ K.swap = true ∧
    K.charges = true

/-- A manager that trusts the hierarchy, and its cpu controller, only where there is reason
to. -/
def Justified (K : Kernel) (m : Manager) : Prop :=
  (m.active = true → K.Enforces) ∧
  (m.CPUActive = true → K.cpuDelegated = true ∧ K.cpuCharges = true ∧ 1000000 ≤ K.spun)

theorem probe_kept {fuel : ℕ} (hD : 3 ≤ D) (hfuel : D < fuel) (hs : Kept K D s) :
    (probe fuel [baseName]).Meets (probing K faults)
      (fun r t => Kept K D t ∧ ∀ c, r = .ok c → K.fsType = cgroup2Magic ∧ K.delegated = true ∧
        ∃ cpuActive, (cpuActive = true → K.cpuDelegated = true) ∧ Seen K cpuActive c) s := by
  have hbase : Call.Within D (.mkdirAll [baseName]) := by
    rintro q (hq | hq)
    · cases hq
    · cases hq
      exact Nat.le_trans (by decide) hD
  refine orFail_kept (P := fun fsType => fsType = K.fsType)
    ((ask_kept (c := .statfs) (fun q hq => by simp at hq) hs).mono ?_) ?_
  · rintro x t ⟨ht, u, v, -, hact⟩
    refine ⟨ht, fun fsType hx => ?_⟩
    subst hx
    rcases hact with ⟨hx, -⟩ | ⟨-, ⟨e, he⟩, -⟩
    · exact Except.ok.inj hx
    · cases he
  · rintro fsType t rfl ht
    refine meets_ite (fun _ => done_kept (by simp) ht) fun hmagic => ?_
    refine orFail_kept (P := fun _ => True)
      ((ask_kept (c := .mkdirAll [baseName]) hbase ht).mono
        fun _ _ hu => ⟨hu.1, fun _ _ => trivial⟩) fun _ u _ hu => ?_
    refine Meets.bind ((enableControllers_kept hu).mono ?_)
    rintro r v ⟨hv, hr⟩
    cases r with
    | error e => exact done_kept (by simp) hv
    | ok cpuActive =>
        obtain ⟨hdel, hcpu⟩ := hr cpuActive rfl
        refine (verifyEnforcement_kept hD hfuel hv).mono fun r w hw => ⟨hw.1, fun c hc => ?_⟩
        exact ⟨not_not.mp hmagic, hdel, cpuActive, hcpu, hw.2 c hc⟩

theorem newManager_kept (K : Kernel) (faults : Bool) (h : Hierarchy GoString) (k : ℕ)
    (root : GoString) :
    (NewManager (h.depth + 4 + k) root).Meets (probing K faults)
      (fun m _ => Justified K m) (.fresh h) := by
  have hs : Kept K (h.depth + 3) (.fresh h) :=
    ⟨fun q hq => (length_le_depth hq).trans (Nat.le_add_right _ _), Nat.zero_le _, Nat.zero_le _⟩
  have hoff : ∀ (base : GoString) (t : Probed), Kept K (h.depth + 3) t →
      (done ⟨base, false, false⟩ : Prog Manager).Meets (probing K faults)
        (fun m _ => Justified K m) t := by
    intro base t ht u hu
    constructor <;> intro hm <;> cases hm
  refine Meets.bind (p := getenv (str "GOBOXD_CGROUPV2"))
    ((ask_kept (fun q hq => by simp at hq) hs).mono ?_)
  rintro env t ⟨ht, u, v, -, hact⟩
  refine meets_ite (fun _ => hoff _ t ht) fun henv => ?_
  have henv' : env = K.env := by
    rcases hact with ⟨hx, -⟩ | ⟨-, hf, -⟩
    · exact hx
    · exact hf.elim
  refine Meets.bind ((probe_kept (by omega) (by omega) ht).mono ?_)
  rintro r w ⟨hw, hr⟩
  cases r with
  | error e => exact hoff _ w hw
  | ok c =>
      obtain ⟨hmagic, hdel, cpuActive, hcpu, hswap, hcharges, hseen⟩ := hr c rfl
      refine Meets.bind ((sweep_kept (by omega) hw).mono fun _ z hz => ?_)
      intro z' _
      refine ⟨fun _ => ⟨henv' ▸ henv, hmagic, hdel, hswap, hcharges⟩, fun hc => ?_⟩
      have hctrue : c = true := hc
      obtain ⟨hca, hrest⟩ := hseen hctrue
      exact ⟨hcpu hca, hrest⟩

/-- Whatever fails, whenever the hog is killed and however its steps fall, the manager comes
out active only where the memory controller charges, and trusts the cpu controller only
where that charges. -/
theorem newManager_justified (K : Kernel) (h : Hierarchy GoString) (k : ℕ) (root : GoString) :
    (NewManager (h.depth + 4 + k) root).Meets (probing K true)
      (fun m _ => Justified K m) (.fresh h) := newManager_kept K true h k root

end Trust

end Goboxd.Cgroupv2
