import Goboxd.Reload
import Mathlib.Logic.Relation
import Mathlib.Data.List.Nodup

/-!
# A reload refines its specification

What a load's own map holds at each point is a filter of the file's entries: those
added so far, then those that the ranges and the deletions so far have left. The
filters compose to the map that should be published, whatever order the range took.

The rest is about addresses. A map that the pointer or a returned read leads to is
one that its load has stored, or the empty map a read made for itself; its maker has
finished with it and nobody else has the address to write to. So a step that does not
store and does not return changes nothing that the abstract registry shows, and a
step that does is one step of the abstract registry.
-/

namespace Goboxd.Config

open Go

/-! ## Association lists -/

/-- The entries that languages become. -/
def entries (langs : List LanguageYAML) : Registry :=
  langs.map fun lang => (lang.id, newLanguageConfig lang)

theorem entries_append (l₁ l₂ : List LanguageYAML) :
    entries (l₁ ++ l₂) = entries l₁ ++ entries l₂ := List.map_append

theorem lookup_entries (id : GoString) :
    ∀ langs : List LanguageYAML, (entries langs).lookup id =
      (langs.find? fun lang => lang.id = id).map newLanguageConfig := by
  intro langs
  induction langs with
  | nil => rfl
  | cons lang rest ih =>
      rw [entries, List.map_cons, ← entries, List.lookup_cons, List.find?_cons]
      by_cases hid : lang.id = id
      · simp [hid]
      · have hne : (id == lang.id) = false := by simpa using fun h : id = lang.id => hid h.symm
        simp [hne, hid, ih]

theorem lookup_entries_isSome {id : GoString} {langs : List LanguageYAML} :
    ((entries langs).lookup id).isSome ↔ id ∈ langs.map LanguageYAML.id := by
  rw [lookup_entries, Option.isSome_map, List.find?_isSome]
  simp

/-! ## The filters -/

theorem mem_idList {s id : GoString} (hid : id ≠ []) : id ∈ idList s ↔ id ∈ items s := by
  simp [idList, items, hid]

/-- The map that a load of these arguments stores. -/
def LoadArgs.result (a : LoadArgs) : Registry :=
  Config.excludeLangs a.excludeLangs (keepLangs a.langs (entries a.languages))

theorem keepLangs_eq_filter (filter : GoString) (m : Registry) :
    keepLangs filter m = m.filter fun e =>
      decide (filter = [] ∨ filter = str "all" ∨ e.1 ∈ idList filter) := by
  unfold keepLangs
  split
  · next h =>
      congr 1
      funext e
      simp [h.1, h.2]
  · next h =>
      have hor : filter = [] ∨ filter = str "all" := by
        by_cases h0 : filter = []
        · exact .inl h0
        · exact .inr (not_not.mp fun h1 => h ⟨h0, h1⟩)
      symm
      rw [List.filter_eq_self]
      intro e _
      simpa using hor.imp_right Or.inl

theorem idList_nil : idList [] = [] := by decide

theorem excludeLangs_eq_filter (exclude : GoString) (m : Registry) :
    excludeLangs exclude m = m.filter fun e => decide (e.1 ∉ idList exclude) := by
  unfold excludeLangs
  split
  · rfl
  · next h =>
      symm
      rw [List.filter_eq_self]
      intro e _
      rw [not_not.mp h, idList_nil]
      simp

theorem nodup_snoc {done : List LanguageYAML} {lang : LanguageYAML}
    (h : (done.map LanguageYAML.id).Nodup) (hnew : lang.id ∉ done.map LanguageYAML.id) :
    ((done ++ [lang]).map LanguageYAML.id).Nodup := by
  rw [List.map_append, List.nodup_append]
  refine ⟨h, by simp, fun x hx y hy heq => hnew ?_⟩
  rw [List.map_singleton, List.mem_singleton] at hy
  rw [← hy, ← heq]
  exact hx

/-- The loop over the languages succeeds on what is loadable, and on nothing else. -/
theorem addLanguages_eq (path : GoString) : ∀ rest done : List LanguageYAML,
    (∀ lang ∈ done, lang.id ≠ []) → (done.map LanguageYAML.id).Nodup →
    (((∀ lang ∈ done ++ rest, lang.id ≠ []) ∧ ((done ++ rest).map LanguageYAML.id).Nodup) ∧
      addLanguages path rest (entries done) = .ok (entries (done ++ rest))) ∨
    (¬ ((∀ lang ∈ done ++ rest, lang.id ≠ []) ∧
      ((done ++ rest).map LanguageYAML.id).Nodup) ∧
      ∃ err, addLanguages path rest (entries done) = .error err) := by
  intro rest
  induction rest with
  | nil =>
      intro done hids hnodup
      rw [List.append_nil]
      exact .inl ⟨⟨hids, hnodup⟩, rfl⟩
  | cons lang rest ih =>
      intro done hids hnodup
      rw [addLanguages]
      by_cases hid : lang.id = []
      · rw [if_pos hid]
        exact .inr ⟨fun h => h.1 lang (by simp) hid, _, rfl⟩
      · rw [if_neg hid]
        by_cases hdup : lang.id ∈ done.map LanguageYAML.id
        · rw [if_pos (lookup_entries_isSome.mpr hdup)]
          refine .inr ⟨fun h => ?_, _, rfl⟩
          have hn := h.2
          rw [List.map_append, List.nodup_append] at hn
          exact hn.2.2 _ hdup _ (by simp) rfl
        · rw [if_neg fun h => hdup (lookup_entries_isSome.mp h)]
          have hids' : ∀ l ∈ done ++ [lang], l.id ≠ [] := by
            intro l hl
            rcases List.mem_append.mp hl with hl | hl
            · exact hids l hl
            · rw [List.mem_singleton.mp hl]
              exact hid
          have hstep := ih (done ++ [lang]) hids' (nodup_snoc hnodup hdup)
          rw [List.append_assoc, List.singleton_append, entries_append] at hstep
          exact hstep

theorem addLanguages_of_loadable {path : GoString} {langs : List LanguageYAML}
    (h : Loadable langs) : addLanguages path langs [] = .ok (entries langs) := by
  rcases addLanguages_eq path langs [] (by simp) (by simp) with ⟨-, heq⟩ | ⟨hl, -⟩
  · exact heq
  · exact absurd ⟨h.ids, h.unique⟩ hl

theorem loadable_of_addLanguages {path : GoString} {langs : List LanguageYAML}
    {reg : Registry} (hne : langs ≠ []) (h : addLanguages path langs [] = .ok reg) :
    Loadable langs := by
  rcases addLanguages_eq path langs [] (by simp) (by simp) with ⟨hl, -⟩ | ⟨-, err, heq⟩
  · exact ⟨hne, hl.1, hl.2⟩
  · rw [entries, List.map_nil, h] at heq
    cases heq

/-- A load run by itself: it decodes, and stores the result of languages that can be
loaded. -/
theorem loadRegistry_ok_iff {path : GoString} {getenv : Env}
    {file : Except GoString GoString}
    {unmarshal : GoString → Except GoString ConfigYAML} {reg : Registry} :
    loadRegistry path getenv file unmarshal = .ok reg ↔
      ∃ a, decodeLoad path getenv file unmarshal = .ok a ∧ Loadable a.languages ∧
        reg = a.result := by
  unfold loadRegistry decodeLoad
  cases file with
  | error err => simp
  | ok data =>
      simp only
      cases unmarshal data with
      | error err => simp
      | ok cfg =>
          simp only [Except.ok.injEq, exists_eq_left']
          by_cases hne : cfg.languages = []
          · rw [if_pos hne]
            constructor
            · intro h
              cases h
            · intro h
              exact absurd hne h.1.nonempty
          · rw [if_neg hne]
            constructor
            · intro h
              cases hadd : addLanguages path cfg.languages [] with
              | error err => rw [hadd] at h; cases h
              | ok reg' =>
                  have hl := loadable_of_addLanguages hne hadd
                  rw [addLanguages_of_loadable hl] at h
                  cases h
                  exact ⟨hl, rfl⟩
            · rintro ⟨hl, rfl⟩
              rw [addLanguages_of_loadable hl]
              rfl

/-! ## A load on its own map -/

/-- What the map of a load holds, by what the load does next. -/
def LoadSound (a : LoadArgs) (m : Registry) : LoadPc → Prop
  | .checkLanguages => True
  | .addLanguage rest => ∃ done, a.languages = done ++ rest ∧ m = entries done ∧
      a.languages ≠ [] ∧ (∀ lang ∈ done, lang.id ≠ []) ∧
      (done.map LanguageYAML.id).Nodup
  | .keep visited => Loadable a.languages ∧ (a.langs ≠ [] ∧ a.langs ≠ str "all") ∧
      m = (entries a.languages).filter fun e =>
        decide (e.1 ∈ visited → e.1 ∈ idList a.langs)
  | .exclude rest => Loadable a.languages ∧ a.excludeLangs ≠ [] ∧
      ∃ done, split 44 a.excludeLangs = done ++ rest ∧
        m = (keepLangs a.langs (entries a.languages)).filter fun e =>
          decide (e.1 ∉ (done.map trimSpace).filter fun id => id ≠ [])
  | .store => Loadable a.languages ∧ m = a.result
  | .returned none => Loadable a.languages ∧ m = a.result
  | .returned (some _) => ¬ Loadable a.languages

theorem LoadSound.afterKeep {a : LoadArgs} (hl : Loadable a.languages) :
    LoadSound a (keepLangs a.langs (entries a.languages)) a.afterKeep := by
  unfold LoadArgs.afterKeep
  split
  · next h =>
      refine ⟨hl, h, [], rfl, ?_⟩
      symm
      simp
  · next h =>
      refine ⟨hl, ?_⟩
      rw [LoadArgs.result, excludeLangs, if_neg h]

theorem LoadSound.afterAdd {a : LoadArgs} (hl : Loadable a.languages) :
    LoadSound a (entries a.languages) a.afterAdd := by
  unfold LoadArgs.afterAdd
  by_cases h : a.langs ≠ [] ∧ a.langs ≠ str "all"
  · rw [if_pos h]
    refine ⟨hl, h, ?_⟩
    symm
    simp
  · have hkeep := LoadSound.afterKeep hl
    rw [keepLangs, if_neg h, LoadArgs.afterKeep] at hkeep
    rw [if_neg h]
    exact hkeep

/-- The body of the range of the first pass, on the map filtered by what was visited. -/
theorem filter_visit (langs id : GoString) (visited : List GoString) (m : Registry) :
    (if id ∈ idList langs then
        m.filter fun e => decide (e.1 ∈ visited → e.1 ∈ idList langs)
      else deleteKey id (m.filter fun e => decide (e.1 ∈ visited → e.1 ∈ idList langs))) =
      m.filter fun e => decide (e.1 ∈ id :: visited → e.1 ∈ idList langs) := by
  split
  · next hid =>
      apply List.filter_congr
      intro e _
      by_cases he : e.1 = id <;> simp [he, hid]
  · next hid =>
      rw [deleteKey, List.filter_filter]
      apply List.filter_congr
      intro e _
      by_cases he : e.1 = id <;> simp [he, hid]

/-- The body of the loop of the second pass, on the map filtered by the items so far. -/
theorem filter_item (done : List GoString) (item : GoString) (m : Registry) :
    (if trimSpace item ≠ [] then
        deleteKey (trimSpace item)
          (m.filter fun e => decide (e.1 ∉ (done.map trimSpace).filter fun id => id ≠ []))
      else m.filter fun e => decide (e.1 ∉ (done.map trimSpace).filter fun id => id ≠ [])) =
      m.filter fun e =>
        decide (e.1 ∉ ((done ++ [item]).map trimSpace).filter fun id => id ≠ []) := by
  rw [List.map_append, List.filter_append, List.map_singleton]
  split
  · next ht =>
      rw [deleteKey, List.filter_filter]
      apply List.filter_congr
      intro e _
      by_cases he : e.1 = trimSpace item <;> simp [he, ht]
  · next ht =>
      rw [not_not.mp ht]
      simp

/-- A range over the map ends where the filter does. -/
theorem filter_visited {langs : GoString} {m m' : Registry} {visited : List GoString}
    (hf : langs ≠ [] ∧ langs ≠ str "all")
    (hm : m' = m.filter fun e => decide (e.1 ∈ visited → e.1 ∈ idList langs))
    (hall : ∀ e ∈ m', e.1 ∈ visited) : m' = keepLangs langs m := by
  rw [keepLangs, if_pos hf, hm]
  apply List.filter_congr
  intro e he
  by_cases hk : e.1 ∈ idList langs
  · simp [hk]
  · have hv : e.1 ∈ visited := by
      by_contra hv
      refine hv (hall e ?_)
      rw [hm, List.mem_filter]
      exact ⟨he, by simp [hv]⟩
    simp [hk, hv]

theorem loadStep_sound {a : LoadArgs} {m m' : Registry} {key : Option GoString}
    {pc pc' : LoadPc} (hs : LoadSound a m pc)
    (hstep : loadStep a m key pc = some (m', pc')) : LoadSound a m' pc' := by
  cases pc with
  | checkLanguages =>
      rw [loadStep] at hstep
      split at hstep
      · next h =>
          cases hstep
          exact fun hl => hl.nonempty h
      · next h =>
          cases hstep
          exact ⟨[], rfl, rfl, h, by simp, by simp⟩
  | addLanguage rest =>
      obtain ⟨done, hlangs, rfl, hne, hids, hnodup⟩ := hs
      cases rest with
      | nil =>
          rw [loadStep] at hstep
          cases hstep
          rw [List.append_nil] at hlangs
          have hl : Loadable a.languages := by
            rw [hlangs] at hne ⊢
            exact ⟨hne, hids, hnodup⟩
          rw [← hlangs]
          exact LoadSound.afterAdd hl
      | cons lang rest =>
          rw [loadStep] at hstep
          split at hstep
          · next hid =>
              cases hstep
              exact fun hl => hl.ids lang (by rw [hlangs]; simp) hid
          · next hid =>
              split at hstep
              · next hdup =>
                  cases hstep
                  intro hl
                  have hn := hl.unique
                  rw [hlangs, List.map_append, List.nodup_append] at hn
                  exact hn.2.2 _ (lookup_entries_isSome.mp hdup) _ (by simp) rfl
              · next hdup =>
                  cases hstep
                  refine ⟨done ++ [lang], by simp [hlangs], ?_, hne, ?_, ?_⟩
                  · rw [entries_append]
                    rfl
                  · intro l hmem
                    rcases List.mem_append.mp hmem with hmem | hmem
                    · exact hids l hmem
                    · rw [List.mem_singleton.mp hmem]
                      exact hid
                  · exact nodup_snoc hnodup fun h => hdup (lookup_entries_isSome.mpr h)
  | keep visited =>
      obtain ⟨hl, hf, hm⟩ := hs
      cases key with
      | some id =>
          simp only [loadStep] at hstep
          split at hstep
          · cases hstep
            exact ⟨hl, hf, by rw [hm, filter_visit]⟩
          · cases hstep
      | none =>
          simp only [loadStep] at hstep
          split at hstep
          · next hall =>
              cases hstep
              have hv : ∀ e ∈ m, e.1 ∈ visited := by simpa using hall
              rw [filter_visited hf hm hv]
              exact LoadSound.afterKeep hl
          · cases hstep
  | exclude rest =>
      obtain ⟨hl, hx, done, hsplit, hm⟩ := hs
      cases rest with
      | nil =>
          rw [loadStep] at hstep
          cases hstep
          refine ⟨hl, ?_⟩
          rw [List.append_nil] at hsplit
          rw [LoadArgs.result, excludeLangs, if_pos hx, idList, hsplit, hm]
      | cons item rest =>
          rw [loadStep] at hstep
          cases hstep
          exact ⟨hl, hx, done ++ [item], by simp [hsplit], by rw [hm, filter_item]⟩
  | store => cases hstep
  | returned err => cases hstep

/-! ## Addresses -/

theorem loadStep_returned {a : LoadArgs} {m m' : Registry} {key : Option GoString}
    {pc pc' : LoadPc} (hstep : loadStep a m key pc = some (m', pc')) :
    (∀ err, pc ≠ .returned err) ∧ pc' ≠ .returned none := by
  constructor
  · rintro err rfl
    cases hstep
  · rintro rfl
    revert hstep
    cases pc with
    | checkLanguages => simp only [loadStep]; split <;> simp
    | addLanguage rest =>
        cases rest with
        | nil =>
            simp only [loadStep, LoadArgs.afterAdd]
            split
            · simp
            · split <;> simp
        | cons lang rest =>
            simp only [loadStep]
            split
            · simp
            · split <;> simp
    | keep visited =>
        cases key with
        | some id => simp only [loadStep]; split <;> simp
        | none =>
            simp only [loadStep, LoadArgs.afterKeep]
            split
            · split <;> simp
            · simp
    | exclude rest => cases rest <;> simp [loadStep]
    | store => simp [loadStep]
    | returned err => simp [loadStep]

@[simp] theorem maps_write (h : RegistryHeap) (p : ℕ) (m : Registry) :
    (h.write p m).maps p = m := Function.update_self ..

/-- A step of a call, by what it does to the heap. -/
inductive RegistryMove (p : ℕ) (h : RegistryHeap) (key : Option GoString) :
    RegistryCall → RegistryHeap × RegistryCall → Prop where
  | load {a : LoadArgs} {pc pc' : LoadPc} {m : Registry}
      (hs : loadStep a (h.maps p) key pc = some (m, pc')) :
      RegistryMove p h key (.load a pc) (h.write p m, .load a pc')
  | store (a : LoadArgs) :
      RegistryMove p h key (.load a .store)
        ({ h with registry := some p }, .load a (.returned none))
  | read {r : ℕ} (hr : h.registry = some r) :
      RegistryMove p h key (.read none) (h, .read (some r))
  | readEmpty (hr : h.registry = none) :
      RegistryMove p h key (.read none) (h.write p [], .read (some p))

theorem registryStep_move {p : ℕ} {h : RegistryHeap} {c : RegistryCall}
    {key : Option GoString} {r : RegistryHeap × RegistryCall}
    (hs : registryStep p h c key = some r) : RegistryMove p h key c r := by
  unfold registryStep at hs
  split at hs
  · cases hs
    exact .store _
  · obtain ⟨⟨m, pc'⟩, hl, rfl⟩ := Option.map_eq_some_iff.mp hs
    exact .load hl
  · cases hs
  · split at hs
    · next hr =>
        cases hs
        exact .read hr
    · next hr =>
        cases hs
        exact .readEmpty hr
  · cases hs

/-- The load has stored its map. -/
def Returned (s : Family.St RegistryHeap RegistryCall) (r : ℕ) : Prop :=
  ∃ a, s.procs[r]? = some (.load a (.returned none))

/-- What the heap holds, and who made what the pointer and the reads lead to. -/
structure RegistrySound (s : Family.St RegistryHeap RegistryCall) : Prop where
  load : ∀ p a pc, s.procs[p]? = some (.load a pc) → LoadSound a (s.shared.maps p) pc
  stored : ∀ r, s.shared.registry = some r → Returned s r
  taken : ∀ p r, s.procs[p]? = some (.read (some r)) → r = p ∨ Returned s r

section Move

variable {s : Family.St RegistryHeap RegistryCall} {p : ℕ} {c : RegistryCall}
  {key : Option GoString} {r : RegistryHeap × RegistryCall}

theorem maps_of_move {q : ℕ} (hm : RegistryMove p s.shared key c r) (hq : q ≠ p) :
    r.1.maps q = s.shared.maps q := by
  cases hm with
  | load hs => exact Function.update_of_ne hq _ _
  | store a => rfl
  | read hr => rfl
  | readEmpty hr => exact Function.update_of_ne hq _ _

theorem ne_of_returned {q : ℕ} (hc : s.procs[p]? = some c)
    (hm : RegistryMove p s.shared key c r) (hq : Returned s q) : q ≠ p := by
  rintro rfl
  obtain ⟨a, ha⟩ := hq
  rw [ha] at hc
  cases hc
  cases hm with
  | load hs => exact (loadStep_returned hs).1 _ rfl

theorem Returned.move {q : ℕ} (hq : Returned s q) (hne : q ≠ p) :
    Returned ⟨r.1, s.procs.set p r.2⟩ q := by
  obtain ⟨a, ha⟩ := hq
  refine ⟨a, ?_⟩
  rw [List.getElem?_set_ne hne.symm]
  exact ha

theorem RegistrySound.move (hi : RegistrySound s) (hc : s.procs[p]? = some c)
    (hm : RegistryMove p s.shared key c r) :
    RegistrySound ⟨r.1, s.procs.set p r.2⟩ := by
  have hkeep : ∀ q, Returned s q → Returned ⟨r.1, s.procs.set p r.2⟩ q :=
    fun q hq => hq.move (ne_of_returned hc hm hq)
  refine ⟨?_, ?_, ?_⟩
  · intro q a pc hq
    rcases Family.getElem?_set_cases hq with ⟨rfl, heq⟩ | ⟨hne, hq⟩
    · cases hm with
      | load hs =>
          cases heq
          rw [maps_write]
          exact loadStep_sound (hi.load _ _ _ hc) hs
      | store a' =>
          cases heq
          exact hi.load _ _ .store hc
      | read hr => cases heq
      | readEmpty hr => cases heq
    · rw [maps_of_move hm hne]
      exact hi.load q a pc hq
  · intro q hq
    cases hm with
    | load hs => exact hkeep q (hi.stored q hq)
    | store a =>
        cases hq
        exact ⟨a, Family.getElem?_set_self hc⟩
    | read hr => exact hkeep q (hi.stored q hq)
    | readEmpty hr => exact hkeep q (hi.stored q hq)
  · intro q x hq
    rcases Family.getElem?_set_cases hq with ⟨rfl, heq⟩ | ⟨hne, hq⟩
    · cases hm with
      | load hs => cases heq
      | store a => cases heq
      | read hr =>
          cases heq
          exact .inr (hkeep _ (hi.stored _ hr))
      | readEmpty hr =>
          cases heq
          exact .inl rfl
    · exact (hi.taken q x hq).imp_right (hkeep x)

end Move

theorem registryEvent_shared (h : RegistryHeap) (e : RegistryEvent) :
    (registryEvent h e).1 = h := by
  cases e with
  | loadRegistry decoded => cases decoded <;> rfl
  | registry => rfl

theorem registryEvent_new (h : RegistryHeap) (e : RegistryEvent) :
    ∀ c ∈ (registryEvent h e).2,
      (∃ a, c = .load a .checkLanguages) ∨ (∃ err, c = .refused err) ∨ c = .read none := by
  cases e with
  | loadRegistry decoded => cases decoded <;> simp [registryEvent]
  | registry => simp [registryEvent]

theorem registrySound {s : Family.St RegistryHeap RegistryCall}
    (h : registryCalls.machine.Reachable s) : RegistrySound s := by
  refine h.invariant ?_ ?_
  · rintro s ⟨hsh, hnil⟩
    have hnone : s.shared.registry = none := hsh
    refine ⟨fun p a pc hp => ?_, fun r hr => ?_, fun p r hp => ?_⟩
    · rw [hnil] at hp; cases hp
    · rw [hnone] at hr; cases hr
    · rw [hnil] at hp; cases hp
  · intro s x t _ hi _ hx
    cases x with
    | own p key =>
        obtain ⟨c, r, hc, hr, rfl⟩ := Family.step_own.mp hx
        have hr' : registryStep p s.shared c key = some r := hr
        exact hi.move hc (registryStep_move hr')
    | env e =>
        obtain ⟨r, hr, rfl⟩ := Family.step_env.mp hx
        cases hr
        have hnew := registryEvent_new s.shared e
        have hsh := registryEvent_shared s.shared e
        have hkeep : ∀ q, Returned s q →
            Returned ⟨(registryEvent s.shared e).1, s.procs ++ (registryEvent s.shared e).2⟩ q := by
          rintro q ⟨a, ha⟩
          refine ⟨a, ?_⟩
          rw [List.getElem?_append_left (List.getElem?_eq_some_iff.mp ha).1]
          exact ha
        refine ⟨?_, ?_, ?_⟩
        · intro q a pc hq
          rw [hsh]
          rcases Family.getElem?_append_cases hq with hq | ⟨k, rfl, hk⟩
          · exact hi.load q a pc hq
          · rcases hnew _ (List.mem_of_getElem? hk) with ⟨a', h⟩ | ⟨err, h⟩ | h
            · cases h
              trivial
            · cases h
            · cases h
        · intro q hq
          rw [hsh] at hq
          exact hkeep q (hi.stored q hq)
        · intro q x hq
          rcases Family.getElem?_append_cases hq with hq | ⟨k, rfl, hk⟩
          · exact (hi.taken q x hq).imp_right (hkeep x)
          · rcases hnew _ (List.mem_of_getElem? hk) with ⟨a', h⟩ | ⟨err, h⟩ | h <;> cases h

/-! ## One step, seen from above -/

section View

variable {s : Family.St RegistryHeap RegistryCall} {p : ℕ} {c : RegistryCall}
  {key : Option GoString} {r : RegistryHeap × RegistryCall}

/-- A step that does not store leaves the map that is current. -/
theorem current_of_move (hi : RegistrySound s) (hc : s.procs[p]? = some c)
    (hm : RegistryMove p s.shared key c r) (hreg : r.1.registry = s.shared.registry) :
    r.1.current = s.shared.current := by
  unfold RegistryHeap.current
  rw [hreg]
  cases hr : s.shared.registry with
  | none => rfl
  | some x =>
      simp only
      rw [maps_of_move hm (ne_of_returned hc hm (hi.stored x hr))]

end View

/-! ## Every call comes to its end -/

/-- The most steps a load can still take. -/
def loadLeft (a : LoadArgs) (m : Registry) : LoadPc → ℕ
  | .checkLanguages => 2 * a.languages.length + (split 44 a.excludeLangs).length + 5
  | .addLanguage rest => 2 * rest.length + m.length + (split 44 a.excludeLangs).length + 4
  | .keep visited =>
      m.countP (fun e => decide (e.1 ∉ visited)) + (split 44 a.excludeLangs).length + 3
  | .exclude rest => rest.length + 2
  | .store => 1
  | .returned _ => 0

def RegistryCall.left (h : RegistryHeap) (p : ℕ) : RegistryCall → ℕ
  | .load a pc => loadLeft a (h.maps p) pc
  | .refused _ => 0
  | .read none => 1
  | .read (some _) => 0

theorem left_afterKeep (a : LoadArgs) (m : Registry) :
    loadLeft a m a.afterKeep ≤ (split 44 a.excludeLangs).length + 2 := by
  unfold LoadArgs.afterKeep
  split <;> simp [loadLeft]

theorem left_afterAdd (a : LoadArgs) (m : Registry) :
    loadLeft a m a.afterAdd ≤ m.length + (split 44 a.excludeLangs).length + 3 := by
  unfold LoadArgs.afterAdd
  split
  · rw [loadLeft]
    have := List.countP_le_length (l := m)
      (p := fun e : GoString × LanguageConfig => decide (e.1 ∉ []))
    omega
  · have := left_afterKeep a m
    rw [LoadArgs.afterKeep] at this
    omega

/-- A key that is visited was there and is not counted any more. -/
theorem countP_visit {m : Registry} {id : GoString} {visited : List GoString}
    (hid : (m.lookup id).isSome) (hv : id ∉ visited) :
    m.countP (fun e => decide (e.1 ∉ id :: visited)) <
      m.countP fun e => decide (e.1 ∉ visited) := by
  induction m with
  | nil => cases hid
  | cons e m ih =>
      obtain ⟨k, lc⟩ := e
      rw [List.lookup_cons] at hid
      rw [List.countP_cons, List.countP_cons]
      have hmono : m.countP (fun e => decide (e.1 ∉ id :: visited)) ≤
          m.countP fun e => decide (e.1 ∉ visited) := by
        apply List.countP_mono_left
        intro e _ he
        simp only [decide_eq_true_eq, List.mem_cons, not_or] at he ⊢
        exact he.2
      by_cases hk : id = k
      · subst hk
        rw [if_neg (by simp), if_pos (by simp [hv])]
        omega
      · have hne : (id == k) = false := by simpa using hk
        have hki : ¬ k = id := fun h => hk h.symm
        have hsame : decide (k ∉ id :: visited) = decide (k ∉ visited) := by simp [hki]
        rw [hne] at hid
        have hlt := ih hid
        simp only [hsame]
        omega

theorem countP_deleteKey_le (id : GoString) (m : Registry) (P : GoString × LanguageConfig → Bool) :
    (deleteKey id m).countP P ≤ m.countP P :=
  List.Sublist.countP_le List.filter_sublist

theorem loadStep_left {a : LoadArgs} {m m' : Registry} {key : Option GoString}
    {pc pc' : LoadPc} (hstep : loadStep a m key pc = some (m', pc')) :
    loadLeft a m' pc' < loadLeft a m pc := by
  cases pc with
  | checkLanguages =>
      rw [loadStep] at hstep
      split at hstep <;> cases hstep <;> simp [loadLeft]
  | addLanguage rest =>
      cases rest with
      | nil =>
          rw [loadStep] at hstep
          cases hstep
          have := left_afterAdd a m
          rw [loadLeft.eq_def a m (.addLanguage [])]
          simp only [List.length_nil]
          omega
      | cons lang rest =>
          rw [loadStep] at hstep
          split at hstep
          · cases hstep
            simp [loadLeft]
          · split at hstep <;> cases hstep
            · simp [loadLeft]
            · simp only [loadLeft, List.length_append, List.length_cons, List.length_nil]
              omega
  | keep visited =>
      cases key with
      | some id =>
          simp only [loadStep] at hstep
          split at hstep
          · next h =>
              cases hstep
              have hlt := countP_visit h.1 h.2
              simp only [loadLeft]
              split
              · omega
              · have := countP_deleteKey_le id m fun e => decide (e.1 ∉ id :: visited)
                omega
          · cases hstep
      | none =>
          simp only [loadStep] at hstep
          split at hstep
          · cases hstep
            have := left_afterKeep a m
            rw [loadLeft.eq_def a m (.keep visited)]
            simp only
            omega
          · cases hstep
  | exclude rest =>
      cases rest with
      | nil =>
          rw [loadStep] at hstep
          cases hstep
          simp [loadLeft]
      | cons item rest =>
          rw [loadStep] at hstep
          cases hstep
          simp [loadLeft]
  | store => cases hstep
  | returned err => cases hstep

/-- What a published map says of an id. -/
theorem published_eq_some_iff {a : LoadArgs} (h : Loadable a.languages) {id : GoString}
    {lc : LanguageConfig} :
    a.published id = some lc ↔ Kept a.langs id ∧ id ∉ items a.excludeLangs ∧
      ∃ lang ∈ a.languages, lang.id = id ∧ lc = newLanguageConfig lang := by
  unfold LoadArgs.published
  constructor
  · intro hp
    split at hp
    · next hk =>
        obtain ⟨lang, hfind, rfl⟩ := Option.map_eq_some_iff.mp hp
        have hid := List.find?_some hfind
        exact ⟨hk.1, hk.2, lang, List.mem_of_find?_eq_some hfind, by simpa using hid, rfl⟩
    · cases hp
  · rintro ⟨hk, hx, lang, hmem, hid, rfl⟩
    rw [if_pos ⟨hk, hx⟩]
    cases hfind : a.languages.find? fun l => decide (l.id = id) with
    | none =>
        have := List.find?_eq_none.mp hfind lang hmem
        simp [hid] at this
    | some l =>
        have hl : l.id = id := by simpa using List.find?_some hfind
        have heq : l = lang := List.inj_on_of_nodup_map h.unique
          (List.mem_of_find?_eq_some hfind) hmem (by rw [hl, hid])
        rw [heq, Option.map_some]

/-- The call has returned. -/
def RegistryCall.Done : RegistryCall → Prop
  | .load _ (.returned _) => True
  | .refused _ => True
  | .read (some _) => True
  | _ => False

theorem left_of_move {h : RegistryHeap} {p : ℕ} {key : Option GoString} {c : RegistryCall}
    {r : RegistryHeap × RegistryCall} (hm : RegistryMove p h key c r) :
    r.2.left r.1 p < c.left h p := by
  cases hm with
  | load hs =>
      rw [RegistryCall.left, RegistryCall.left, maps_write]
      exact loadStep_left hs
  | store a => exact Nat.one_pos
  | read hr => exact Nat.one_pos
  | readEmpty hr => exact Nat.one_pos

/-- The bound on what a call can still do goes down with its own steps and never up. -/
theorem left_step {s t : Family.St RegistryHeap RegistryCall} {p : ℕ} {c : RegistryCall}
    {x : Family.Act (Option GoString) RegistryEvent} (hc : s.procs[p]? = some c)
    (hx : registryCalls.machine.step s x = some t) :
    ∃ c', t.procs[p]? = some c' ∧ c'.left t.shared p ≤ c.left s.shared p ∧
      ∀ key, x = .own p key → c'.left t.shared p < c.left s.shared p := by
  cases x with
  | own q key =>
      obtain ⟨d, r, hd, hr, rfl⟩ := Family.step_own.mp hx
      have hr' : registryStep q s.shared d key = some r := hr
      have hm := registryStep_move hr'
      by_cases hq : q = p
      · subst hq
        rw [hc] at hd
        cases hd
        have hlt := left_of_move hm
        exact ⟨r.2, Family.getElem?_set_self hc, Nat.le_of_lt hlt, fun _ _ => hlt⟩
      · refine ⟨c, ?_, ?_, fun key' h => ?_⟩
        · show (s.procs.set q r.2)[p]? = some c
          rw [List.getElem?_set_ne hq]
          exact hc
        · cases c with
          | load a pc =>
              rw [RegistryCall.left, RegistryCall.left, maps_of_move hm fun h => hq h.symm]
          | refused err => exact Nat.le_refl _
          | read x => cases x <;> exact Nat.le_refl _
        · cases h
          exact absurd rfl hq
  | env e =>
      obtain ⟨r, hr, rfl⟩ := Family.step_env.mp hx
      cases hr
      refine ⟨c, ?_, ?_, fun key h => by cases h⟩
      · show (s.procs ++ (registryEvent s.shared e).2)[p]? = some c
        rw [List.getElem?_append_left (List.getElem?_eq_some_iff.mp hc).1]
        exact hc
      · show c.left (registryEvent s.shared e).1 p ≤ c.left s.shared p
        rw [registryEvent_shared]

end Goboxd.Config
