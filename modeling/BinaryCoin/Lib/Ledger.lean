/-
  Ledgers — runs of events that create and spend keyed entries.

  A state is a partial map; `create` needs the key free, `spend` needs it
  taken (and that the entry may be spent for the given reason).  Along a run
  the events on each key alternate (`Run.alternates`), an entry that is spent
  was created before (`Run.created`), and one that is created again was spent
  in between (`Run.spent`).

  A `Batch` spends some keys and then creates some: the second half of the
  file has the same facts for batches, whose positions are what a user of a
  ledger counts.
-/
import Mathlib

namespace Ledger

variable {K V S : Type}

/-- An event on a key. -/
inductive Event (K V S : Type) where
  | create (key : K) (value : V)
  | spend (key : K) (reason : S)

/-- The two kinds of events. -/
inductive Kind where
  | create | spend
  deriving DecidableEq

def Kind.other : Kind → Kind
  | create => spend
  | spend => create

namespace Event

def key : Event K V S → K
  | create k _ | spend k _ => k

def kind : Event K V S → Kind
  | create .. => .create
  | spend .. => .spend

end Event

variable [DecidableEq K] {allowed : V → S → Prop}

/-- One event. -/
inductive Step (allowed : V → S → Prop) : (K → Option V) → Event K V S → (K → Option V) → Prop
  | create {m : K → Option V} {k : K} {v : V} (free : m k = none) :
      Step allowed m (.create k v) (Function.update m k (some v))
  | spend {m : K → Option V} {k : K} {v : V} {s : S} (taken : m k = some v) (ok : allowed v s) :
      Step allowed m (.spend k s) (Function.update m k none)

/-- A sequence of events. -/
inductive Run (allowed : V → S → Prop) : (K → Option V) → List (Event K V S) → (K → Option V) → Prop
  | nil {m : K → Option V} : Run allowed m [] m
  | cons {m m₁ m' : K → Option V} {e : Event K V S} {es : List (Event K V S)}
      (step : Step allowed m e m₁) (rest : Run allowed m₁ es m') : Run allowed m (e :: es) m'

variable {m m' : K → Option V} {es : List (Event K V S)} {k : K} {v : V}

theorem run_append {es' : List (Event K V S)} :
    Run allowed m (es ++ es') m' ↔ ∃ m₁, Run allowed m es m₁ ∧ Run allowed m₁ es' m' := by
  constructor
  · intro h
    induction es generalizing m with
    | nil => exact ⟨m, .nil, h⟩
    | cons e es ih =>
      cases h with
      | cons step rest =>
        obtain ⟨m₁, h₁, h₂⟩ := ih rest
        exact ⟨m₁, .cons step h₁, h₂⟩
  · rintro ⟨m₁, h₁, h₂⟩
    induction h₁ with
    | nil => exact h₂
    | cons step _ ih => exact .cons step (ih h₂)

theorem run_cons {e : Event K V S} :
    Run allowed m (e :: es) m' ↔ ∃ m₁, Step allowed m e m₁ ∧ Run allowed m₁ es m' :=
  ⟨fun h => by cases h with | cons step rest => exact ⟨_, step, rest⟩, fun ⟨_, s, r⟩ => .cons s r⟩

/-! ## What a run does to one key -/

namespace Run

/-- A key that no event mentions keeps its entry. -/
theorem frame (h : Run allowed m es m') (hk : ∀ e ∈ es, e.key ≠ k) : m' k = m k := by
  induction h with
  | nil => rfl
  | cons step _ ih =>
    rw [ih fun e he => hk e (List.mem_cons_of_mem _ he)]
    have hne := hk _ List.mem_cons_self
    cases step <;> exact Function.update_of_ne (Ne.symm hne) ..

/-- What holds of every entry at the start and of every entry created holds at the end. -/
theorem forall_entry {P : V → Prop} (h : Run allowed m es m') (hm : ∀ k v, m k = some v → P v)
    (hes : ∀ k v, .create k v ∈ es → P v) {k : K} {v : V} (hk : m' k = some v) : P v := by
  induction h with
  | nil => exact hm k v hk
  | @cons m m₁ m' e es step _ ih =>
    refine ih (fun k' v' hk' => ?_) (fun k' v' hc => hes k' v' (List.mem_cons_of_mem _ hc)) hk
    cases step with
    | @create k'' v'' _ =>
      by_cases hkk : k' = k''
      · rw [hkk, Function.update_self] at hk'
        cases hk'
        exact hes k'' _ List.mem_cons_self
      · rw [Function.update_of_ne hkk] at hk'
        exact hm k' v' hk'
    | @spend k'' _ _ _ _ =>
      by_cases hkk : k' = k''
      · rw [hkk, Function.update_self] at hk'
        cases hk'
      · rw [Function.update_of_ne hkk] at hk'
        exact hm k' v' hk'

/-- The entry that the last event on a key creates. -/
theorem last_create (pre post : List (Event K V S)) {v : V}
    (h : Run allowed m (pre ++ .create k v :: post) m') (hpost : ∀ e ∈ post, e.key ≠ k) :
    m' k = some v := by
  obtain ⟨m₁, -, h⟩ := run_append.1 h
  obtain ⟨m₂, hstep, h⟩ := run_cons.1 h
  rw [h.frame hpost]
  cases hstep
  exact Function.update_self ..

/-- An entry at the end was there at the start or was created. -/
theorem entry (h : Run allowed m es m') {v : V} (hk : m' k = some v) :
    m k = some v ∨ .create k v ∈ es := by
  induction h with
  | nil => exact .inl hk
  | @cons m m₁ m' e es step _ ih =>
    rcases ih hk with hm | hmem
    · by_cases hek : e.key = k
      · cases step with
        | @create k' v' free =>
          obtain rfl : k' = k := hek
          rw [Function.update_self] at hm
          cases hm
          exact .inr List.mem_cons_self
        | @spend k' v' s taken ok =>
          obtain rfl : k' = k := hek
          rw [Function.update_self] at hm
          cases hm
      · have hm' : m₁ k = m k := by cases step <;> exact Function.update_of_ne (Ne.symm hek) ..
        exact .inl (hm' ▸ hm)
    · exact .inr (List.mem_cons_of_mem _ hmem)

/-- A free key that is taken at the end was created. -/
theorem created (h : Run allowed m es m') (hn : m k = none) (hk : m' k ≠ none) :
    ∃ v, .create k v ∈ es := by
  induction h with
  | nil => exact absurd hn hk
  | @cons m m₁ m' e es step _ ih =>
    by_cases h₁ : m₁ k = none
    · obtain ⟨v, hv⟩ := ih h₁ hk
      exact ⟨v, List.mem_cons_of_mem _ hv⟩
    · cases step with
      | @create k' v' _ =>
        have hkk : k = k' := by
          by_contra hne
          rw [Function.update_of_ne hne] at h₁
          exact h₁ hn
        exact ⟨v', hkk ▸ List.mem_cons_self⟩
      | @spend k' _ _ _ _ =>
        refine absurd ?_ h₁
        by_cases hkk : k = k'
        · rw [hkk, Function.update_self]
        · rw [Function.update_of_ne hkk, hn]

/-- A taken key that is free at the end was spent. -/
theorem spent (h : Run allowed m es m') (hn : m k ≠ none) (hk : m' k = none) :
    ∃ s, .spend k s ∈ es := by
  induction h with
  | nil => exact absurd hk hn
  | @cons m m₁ m' e es step _ ih =>
    by_cases h₁ : m₁ k = none
    · cases step with
      | @spend k' _ s _ _ =>
        have hkk : k = k' := by
          by_contra hne
          rw [Function.update_of_ne hne] at h₁
          exact hn h₁
        exact ⟨s, hkk ▸ List.mem_cons_self⟩
      | @create k' v' free =>
        refine absurd h₁ ?_
        by_cases hkk : k = k'
        · rw [hkk, Function.update_self]; simp
        · rwa [Function.update_of_ne hkk]
    · obtain ⟨s, hs⟩ := ih h₁ hk
      exact ⟨s, List.mem_cons_of_mem _ hs⟩

/-- A key that is spent and never created is free at the end. -/
theorem gone (h : Run allowed m es m') {s : S} (hs : .spend k s ∈ es)
    (hc : ∀ v, .create k v ∉ es) : m' k = none := by
  induction h with
  | nil => cases hs
  | @cons m m₁ m' e es step rest ih =>
    have hrest : ∀ v, .create k v ∉ es := fun v hv => hc v (List.mem_cons_of_mem _ hv)
    rcases List.mem_cons.1 hs with rfl | hs
    · cases step with
      | spend _ _ =>
        by_contra hk
        obtain ⟨v, hv⟩ := rest.created (Function.update_self ..) hk
        exact hrest v hv
    · exact ih hs hrest

/-- An entry that is there at the start and is touched is spent as it is. -/
theorem first_spend (h : Run allowed m es m') (hk : m k = some v) (hex : ∃ e ∈ es, e.key = k) :
    ∃ s, .spend k s ∈ es ∧ allowed v s := by
  induction h with
  | nil => simp at hex
  | @cons m m₁ m' e es step _ ih =>
    by_cases hek : e.key = k
    · cases step with
      | @create k' v' free =>
        rw [← hek] at hk
        cases free.symm.trans hk
      | @spend k' v' s taken ok =>
        rw [← hek] at hk
        obtain rfl := Option.some.inj (taken.symm.trans hk)
        exact ⟨s, hek ▸ List.mem_cons_self, ok⟩
    · have hm : m₁ k = m k := by cases step <;> exact Function.update_of_ne (Ne.symm hek) ..
      obtain ⟨e', he', hek'⟩ := hex
      have hes : e' ∈ es := (List.mem_cons.1 he').resolve_left fun h => hek (h ▸ hek')
      obtain ⟨s, hs, hallowed⟩ := ih (hm.trans hk) ⟨e', hes, hek'⟩
      exact ⟨s, List.mem_cons_of_mem _ hs, hallowed⟩

/-- What a run leaves under a key depends on nothing else at the start. -/
theorem congr {m₁ m₁' : K → Option V} (h : Run allowed m es m') (h₁ : Run allowed m₁ es m₁')
    (hk : m₁ k = m k) : m₁' k = m' k := by
  induction h generalizing m₁ with
  | nil => cases h₁; exact hk
  | @cons m m₂ m' e es step _ ih =>
    cases h₁ with
    | cons step₁ rest₁ =>
      refine ih rest₁ ?_
      cases step <;> cases step₁ <;> simp only [Function.update_apply, hk]

end Run

/-- The kinds of the events on `k`, in order. -/
def history (k : K) (es : List (Event K V S)) : List Kind :=
  es.filterMap fun e => if e.key = k then some e.kind else none

/-- `next`, then the other kind, and so on in turn. -/
inductive Alternates : Kind → List Kind → Prop
  | nil {next : Kind} : Alternates next []
  | cons {next : Kind} {rest : List Kind} (h : Alternates next.other rest) :
      Alternates next (next :: rest)

theorem Alternates.first {next kind : Kind} {rest : List Kind} (h : Alternates next (kind :: rest)) :
    kind = next := by
  cases h
  rfl

/-- The kind of event that can happen next on a key. -/
def due (entry : Option V) : Kind := if entry.isSome then .spend else .create

/-- **The events on each key alternate**, from a creation on when the key is free at the
    start. -/
theorem Run.alternates (h : Run allowed m es m') (k : K) : Alternates (due (m k)) (history k es) := by
  induction h with
  | nil => exact .nil
  | @cons m m₁ m' e es step _ ih =>
    by_cases hk : e.key = k
    · subst hk
      simp only [history, List.filterMap_cons, if_true]
      cases step with
      | create free =>
        simp only [Event.key, free, Function.update_self] at ih ⊢
        exact .cons ih
      | spend taken _ =>
        simp only [Event.key, taken, Function.update_self] at ih ⊢
        exact .cons ih
    · have hm : m₁ k = m k := by cases step <;> exact Function.update_of_ne (Ne.symm hk) ..
      simp only [history, List.filterMap_cons, hk, if_false]
      rwa [hm] at ih

/-- **A spend is allowed by the entry it takes**: the last one created under its key. -/
theorem Run.allowed_of_spend {pre mid post : List (Event K V S)} {s : S}
    (h : Run allowed m (pre ++ .create k v :: (mid ++ .spend k s :: post)) m')
    (hmid : ∀ e ∈ mid, e.key ≠ k) : allowed v s := by
  obtain ⟨m₁, -, h⟩ := run_append.1 h
  obtain ⟨m₂, hc, h⟩ := run_cons.1 h
  obtain ⟨m₃, hm, h⟩ := run_append.1 h
  obtain ⟨m₄, hs, -⟩ := run_cons.1 h
  have h₃ := hm.frame hmid
  cases hc with
  | create _ =>
    cases hs with
    | spend taken ok =>
      rw [h₃, Function.update_self] at taken
      cases taken; exact ok

/-! ## Batches -/

/-- Spends some keys, then creates some. -/
structure Batch (K V S : Type) where
  spends : List (K × S)
  creates : List (K × V)

namespace Batch

def events (b : Batch K V S) : List (Event K V S) :=
  b.spends.map (fun p => .spend p.1 p.2) ++ b.creates.map fun p => .create p.1 p.2

/-- The batch spends `k`. -/
def Spends (b : Batch K V S) (k : K) : Prop := k ∈ b.spends.map Prod.fst

/-- The batch creates `k`. -/
def Creates (b : Batch K V S) (k : K) : Prop := k ∈ b.creates.map Prod.fst

omit [DecidableEq K] in
theorem create_mem_events {b : Batch K V S} : .create k v ∈ b.events → b.Creates k := by
  simp only [events, List.mem_append, List.mem_map, Creates]
  rintro (⟨p, -, hp⟩ | ⟨p, hp, he⟩)
  · cases hp
  · cases he; exact ⟨p, hp, rfl⟩

omit [DecidableEq K] in
theorem spend_mem_events {b : Batch K V S} {s : S} : .spend k s ∈ b.events → b.Spends k := by
  simp only [events, List.mem_append, List.mem_map, Spends]
  rintro (⟨p, hp, he⟩ | ⟨p, -, hp⟩)
  · cases he; exact ⟨p, hp, rfl⟩
  · cases hp

omit [DecidableEq K] in
/-- The events around a spend of a batch: only spends before it. -/
theorem Spends.split {b : Batch K V S} (h : b.Spends k) : ∃ s before after,
    b.events = before ++ .spend k s :: after ∧ ∀ k' v, Event.create k' v ∉ before := by
  obtain ⟨⟨_, s⟩, hp, rfl⟩ := List.mem_map.1 h
  obtain ⟨l₁, l₂, hl⟩ := List.append_of_mem hp
  refine ⟨s, l₁.map (fun p => .spend p.1 p.2), l₂.map (fun p => .spend p.1 p.2) ++
    b.creates.map (fun p => .create p.1 p.2), by simp [events, hl], fun k' v hc => ?_⟩
  obtain ⟨p, -, he⟩ := List.mem_map.1 hc
  cases he

omit [DecidableEq K] in
/-- The events around a creation of a batch. -/
theorem Creates.split {b : Batch K V S} (h : b.Creates k) : ∃ v before after,
    b.events = before ++ .create k v :: after ∧ ∀ k' s, Event.spend k' s ∉ after := by
  obtain ⟨⟨_, v⟩, hp, rfl⟩ := List.mem_map.1 h
  obtain ⟨l₁, l₂, hl⟩ := List.append_of_mem hp
  refine ⟨v, b.spends.map (fun p => .spend p.1 p.2) ++ l₁.map (fun p => .create p.1 p.2),
    l₂.map (fun p => .create p.1 p.2), by simp [events, hl], fun k' s hs => ?_⟩
  obtain ⟨p, -, he⟩ := List.mem_map.1 hs
  cases he

omit [DecidableEq K] in
theorem create_mem_flatMap {bs : List (Batch K V S)} (h : .create k v ∈ bs.flatMap events) :
    ∃ b ∈ bs, b.Creates k := by
  obtain ⟨b, hb, he⟩ := List.mem_flatMap.1 h
  exact ⟨b, hb, create_mem_events he⟩

omit [DecidableEq K] in
theorem spend_mem_flatMap {bs : List (Batch K V S)} {s : S} (h : .spend k s ∈ bs.flatMap events) :
    ∃ b ∈ bs, b.Spends k := by
  obtain ⟨b, hb, he⟩ := List.mem_flatMap.1 h
  exact ⟨b, hb, spend_mem_events he⟩

variable {bs : List (Batch K V S)} {pre mid post : List (Batch K V S)} {a b : Batch K V S}

/-- **What a batch spends, an earlier batch created.** -/
theorem creator_before (h : Run allowed (fun _ => none) ((pre ++ b :: post).flatMap events) m')
    (hk : b.Spends k) : ∃ c ∈ pre, c.Creates k := by
  obtain ⟨s, before, after, he, hb⟩ := hk.split
  rw [List.flatMap_append, List.flatMap_cons, he, List.append_assoc, ← List.append_assoc] at h
  obtain ⟨m₁, hpre, h⟩ := run_append.1 h
  obtain ⟨m₂, hs, -⟩ := run_cons.1 h
  have hm₁ : m₁ k ≠ none := by cases hs with | spend taken _ => rw [taken]; simp
  obtain ⟨v, hv⟩ := hpre.created rfl hm₁
  rcases List.mem_append.1 hv with hv | hv
  · exact create_mem_flatMap hv
  · exact absurd hv (hb k v)

/-- **Between two batches that spend a key it is created**, at the earliest by the first. -/
theorem creator_between (h : Run allowed m ((pre ++ a :: (mid ++ b :: post)).flatMap events) m')
    (ha : a.Spends k) (hb : b.Spends k) : ∃ c ∈ a :: mid, c.Creates k := by
  obtain ⟨s, before, after, hea, -⟩ := ha.split
  obtain ⟨s', before', after', heb, hnc⟩ := hb.split
  have hev : (pre ++ a :: (mid ++ b :: post)).flatMap events =
      (pre.flatMap events ++ before) ++ .spend k s :: ((after ++ mid.flatMap events ++ before') ++
        .spend k s' :: (after' ++ post.flatMap events)) := by
    simp [hea, heb]
  rw [hev] at h
  obtain ⟨m₁, -, h⟩ := run_append.1 h
  obtain ⟨m₂, hs, h⟩ := run_cons.1 h
  obtain ⟨m₃, hmid, h⟩ := run_append.1 h
  obtain ⟨m₄, hs', -⟩ := run_cons.1 h
  have hm₂ : m₂ k = none := by cases hs with | spend _ _ => exact Function.update_self ..
  have hm₃ : m₃ k ≠ none := by cases hs' with | spend taken _ => rw [taken]; simp
  obtain ⟨v, hv⟩ := hmid.created hm₂ hm₃
  simp only [List.mem_append] at hv
  rcases hv with (hv | hv) | hv
  · exact ⟨a, List.mem_cons_self, create_mem_events (v := v) (by rw [hea]; simp [hv])⟩
  · obtain ⟨c, hc, hck⟩ := create_mem_flatMap hv
    exact ⟨c, List.mem_cons_of_mem _ hc, hck⟩
  · exact absurd hv (hnc k v)

/-- **Between two batches that create a key it is spent**, at the latest by the second. -/
theorem spender_between (h : Run allowed m ((pre ++ a :: (mid ++ b :: post)).flatMap events) m')
    (ha : a.Creates k) (hb : b.Creates k) : ∃ c ∈ mid ++ [b], c.Spends k := by
  obtain ⟨v, before, after, hea, hns⟩ := ha.split
  obtain ⟨v', before', after', heb, -⟩ := hb.split
  have hev : (pre ++ a :: (mid ++ b :: post)).flatMap events =
      (pre.flatMap events ++ before) ++ .create k v :: ((after ++ mid.flatMap events ++ before') ++
        .create k v' :: (after' ++ post.flatMap events)) := by
    simp [hea, heb]
  rw [hev] at h
  obtain ⟨m₁, -, h⟩ := run_append.1 h
  obtain ⟨m₂, hc, h⟩ := run_cons.1 h
  obtain ⟨m₃, hmid, h⟩ := run_append.1 h
  obtain ⟨m₄, hc', -⟩ := run_cons.1 h
  have hm₂ : m₂ k ≠ none := by
    cases hc with | create _ => rw [Function.update_self]; simp
  have hm₃ : m₃ k = none := by cases hc' with | create free => exact free
  obtain ⟨s, hs⟩ := hmid.spent hm₂ hm₃
  simp only [List.mem_append] at hs
  rcases hs with (hs | hs) | hs
  · exact absurd hs (hns k s)
  · obtain ⟨c, hc, hck⟩ := spend_mem_flatMap hs
    exact ⟨c, by simp [hc], hck⟩
  · exact ⟨b, by simp, spend_mem_events (s := s) (by rw [heb]; simp [hs])⟩

end Batch

/-! ## Labelled batches -/

/-- A run of the batches of `cs`, each with a label: equal labels spend the same keys, and a key
    has creators of one label only. -/
structure Labelled {α L : Type} (allowed : V → S → Prop) (cs : List α) (batch : α → Batch K V S)
    (label : α → L) : Prop where
  run : ∃ m', Run allowed (fun _ => none) ((cs.map batch).flatMap Batch.events) m'
  spends : ∀ c ∈ cs, ∀ d ∈ cs, label c = label d → ∀ k, (batch c).Spends k → (batch d).Spends k
  creates : ∀ c ∈ cs, ∀ d ∈ cs, ∀ k, (batch c).Creates k → (batch d).Creates k → label c = label d

namespace Labelled
variable {α L : Type} {cs : List α} {batch : α → Batch K V S} {label : α → L}

theorem exists_getElem? {l : List α} {i : ℕ} (h : i < l.length) : ∃ a, l[i]? = some a :=
  ⟨l[i], List.getElem?_eq_getElem h⟩

theorem split_at {i : ℕ} {c : α} (h : cs[i]? = some c) : cs = cs.take i ++ c :: cs.drop (i + 1) := by
  obtain ⟨hi, rfl⟩ := List.getElem?_eq_some_iff.1 h
  rw [List.getElem_cons_drop, List.take_append_drop]

/-- What the batch at `i` spends was created before `i`. -/
theorem creator_before (h : Labelled allowed cs batch label) {i : ℕ} {c : α}
    (hi : cs[i]? = some c) (hk : (batch c).Spends k) :
    ∃ j d, j < i ∧ cs[j]? = some d ∧ (batch d).Creates k := by
  obtain ⟨m', hrun⟩ := h.run
  rw [split_at hi, List.map_append, List.map_cons] at hrun
  obtain ⟨b, hb, hbk⟩ := Batch.creator_before hrun hk
  obtain ⟨d, hd, rfl⟩ := List.mem_map.1 hb
  obtain ⟨j, hj⟩ := List.mem_iff_getElem?.1 hd
  rw [List.getElem?_take] at hj
  split_ifs at hj with hji
  exact ⟨j, d, hji, hj, hbk⟩

/-- Between two batches that spend a key, it is created. -/
theorem creator_between (h : Labelled allowed cs batch label) {i j : ℕ} {c d : α} (hij : i < j)
    (hi : cs[i]? = some c) (hj : cs[j]? = some d) (hc : (batch c).Spends k)
    (hd : (batch d).Spends k) : ∃ l e, i ≤ l ∧ l < j ∧ cs[l]? = some e ∧ (batch e).Creates k := by
  obtain ⟨m', hrun⟩ := h.run
  have hj' : (cs.drop (i + 1))[j - (i + 1)]? = some d := by
    rw [List.getElem?_drop, show i + 1 + (j - (i + 1)) = j by omega, hj]
  rw [split_at hi, split_at hj'] at hrun
  simp only [List.map_append, List.map_cons] at hrun
  obtain ⟨b, hb, hbk⟩ := Batch.creator_between hrun hc hd
  rcases List.mem_cons.1 hb with rfl | hb
  · exact ⟨i, c, le_rfl, hij, hi, hbk⟩
  · obtain ⟨e, he, rfl⟩ := List.mem_map.1 hb
    obtain ⟨l, hl⟩ := List.mem_iff_getElem?.1 he
    rw [List.getElem?_take] at hl
    split_ifs at hl with hlj
    rw [List.getElem?_drop] at hl
    exact ⟨i + 1 + l, e, by omega, by omega, hl, hbk⟩

/-- Between two batches that create a key, it is spent. -/
theorem spender_between (h : Labelled allowed cs batch label) {i j : ℕ} {c d : α} (hij : i < j)
    (hi : cs[i]? = some c) (hj : cs[j]? = some d) (hc : (batch c).Creates k)
    (hd : (batch d).Creates k) : ∃ l e, i < l ∧ l ≤ j ∧ cs[l]? = some e ∧ (batch e).Spends k := by
  obtain ⟨m', hrun⟩ := h.run
  have hj' : (cs.drop (i + 1))[j - (i + 1)]? = some d := by
    rw [List.getElem?_drop, show i + 1 + (j - (i + 1)) = j by omega, hj]
  rw [split_at hi, split_at hj'] at hrun
  simp only [List.map_append, List.map_cons] at hrun
  obtain ⟨b, hb, hbk⟩ := Batch.spender_between hrun hc hd
  rcases List.mem_append.1 hb with hb | hb
  · obtain ⟨e, he, rfl⟩ := List.mem_map.1 hb
    obtain ⟨l, hl⟩ := List.mem_iff_getElem?.1 he
    rw [List.getElem?_take] at hl
    split_ifs at hl with hlj
    rw [List.getElem?_drop] at hl
    exact ⟨i + 1 + l, e, by omega, by omega, hl, hbk⟩
  · obtain rfl := List.mem_singleton.1 hb
    exact ⟨j, d, hij, le_rfl, hj, hbk⟩

/-- The first batch whose label satisfies `P` spends nothing that a batch of such a label
    creates. -/
theorem first_spends_nothing (h : Labelled allowed cs batch label) {P : L → Prop} {i : ℕ} {c : α}
    (hi : cs[i]? = some c) (hfirst : ∀ j < i, ∀ d, cs[j]? = some d → ¬ P (label d))
    (hk : (batch c).Spends k) {e : α} (he : e ∈ cs) (hek : (batch e).Creates k) : ¬ P (label e) := by
  obtain ⟨j, d, hji, hj, hdk⟩ := h.creator_before hi hk
  have hlabel := h.creates d (List.mem_of_getElem? hj) e he k hdk hek
  exact hlabel ▸ hfirst j hji d hj

/-- There is a first batch whose label satisfies `P`. -/
theorem exists_first {P : L → Prop} {c : α} (hc : c ∈ cs) (hP : P (label c)) :
    ∃ (i : ℕ) (d : α), cs[i]? = some d ∧ P (label d) ∧
      ∀ j < i, ∀ e, cs[j]? = some e → ¬ P (label e) := by
  classical
  have hex : ∃ i : ℕ, ∃ d, cs[i]? = some d ∧ P (label d) := by
    obtain ⟨i, hi⟩ := List.mem_iff_getElem?.1 hc
    exact ⟨i, c, hi, hP⟩
  obtain ⟨d, hd, hPd⟩ := Nat.find_spec hex
  exact ⟨Nat.find hex, d, hd, hPd, fun j hj e he hPe => Nat.find_min hex hj ⟨e, he, hPe⟩⟩

/-- No batch spends what it creates. -/
theorem not_spends_own (h : Labelled allowed cs batch label) {c : α} (hc : c ∈ cs)
    (hk : (batch c).Creates k) : ¬ (batch c).Spends k := by
  intro hs
  obtain ⟨i, d, hi, hd, hfirst⟩ := exists_first (P := (· = label c)) hc rfl
  have hds := h.spends c hc d (List.mem_of_getElem? hi) hd.symm k hs
  exact h.first_spends_nothing (P := (· = label c)) hi hfirst hds hc hk rfl

/-- **Repetition starts at the roots**: where the batches that spend nothing have different
    labels, all batches have. -/
theorem label_inj (h : Labelled allowed cs batch label)
    (hroot : ∀ (i j : ℕ) (c d : α), i < j → cs[i]? = some c → cs[j]? = some d → label c = label d →
      ∃ k, (batch c).Spends k) {i j : ℕ} {c d : α} (hij : i < j) (hi : cs[i]? = some c)
    (hj : cs[j]? = some d) : label c ≠ label d := by
  induction i using Nat.strong_induction_on generalizing j c d with
  | h i ih =>
    intro hcd
    obtain ⟨k, hc⟩ := hroot i j c d hij hi hj hcd
    have hd := h.spends c (List.mem_of_getElem? hi) d (List.mem_of_getElem? hj) hcd k hc
    -- the spent key was created before `i`, and again between `i` and `j`
    obtain ⟨i₁, c₁, hi₁, hc₁, hk₁⟩ := h.creator_before hi hc
    obtain ⟨i₂, c₂, hi₂, -, hc₂, hk₂⟩ := h.creator_between hij hi hj hc hd
    exact ih i₁ hi₁ (by omega) hc₁ hc₂
      (h.creates c₁ (List.mem_of_getElem? hc₁) c₂ (List.mem_of_getElem? hc₂) k hk₁ hk₂)

/-- **No square**: no run of batches, each of which spends something, is followed at once by
    batches of the same labels in the same order. -/
theorem no_square (h : Labelled allowed cs batch label) {pre sq sq' post : List α}
    (hcs : cs = pre ++ sq ++ sq' ++ post) (hlabel : sq.map label = sq'.map label)
    (hspend : ∀ c ∈ sq, ∃ k, (batch c).Spends k) : sq = [] := by
  by_contra hne
  have hlen : sq.length = sq'.length := by simpa using congrArg List.length hlabel
  have hat : ∀ r c, sq[r]? = some c → cs[pre.length + r]? = some c := by
    intro r c hr
    have hlt := (List.getElem?_eq_some_iff.1 hr).1
    rw [hcs, List.append_assoc, List.append_assoc, List.getElem?_append_right (by omega),
      Nat.add_sub_cancel_left, List.getElem?_append_left hlt, hr]
  have hat' : ∀ r c, sq'[r]? = some c → cs[pre.length + sq.length + r]? = some c := by
    intro r c hr
    have hlt := (List.getElem?_eq_some_iff.1 hr).1
    rw [hcs, List.append_assoc, List.getElem?_append_right (by simp),
      List.getElem?_append_left (by simp; omega)]
    simpa using hr
  have hlabels : ∀ r, (sq[r]?).map label = (sq'[r]?).map label := fun r => by
    rw [← List.getElem?_map, ← List.getElem?_map, hlabel]
  obtain ⟨c, hc⟩ := List.exists_mem_of_ne_nil sq hne
  -- the first batch anywhere with a label of the square
  have hccs : c ∈ cs := by rw [hcs]; simp [hc]
  obtain ⟨n, d, hn, ⟨b, hb, hbd⟩, hfirst⟩ :=
    exists_first (P := fun l => ∃ b ∈ sq, label b = l) hccs ⟨c, hc, rfl⟩
  obtain ⟨r, hr⟩ := List.mem_iff_getElem?.1 hb
  obtain ⟨k, hk⟩ := hspend b hb
  have hrlt := (List.getElem?_eq_some_iff.1 hr).1
  obtain ⟨b', hb'⟩ : ∃ b', sq'[r]? = some b' := exists_getElem? (by omega)
  have hbb : label b = label b' := by simpa [hr, hb'] using hlabels r
  have hbmem : b ∈ cs := List.mem_of_getElem? (hat r b hr)
  have hbmem' : b' ∈ cs := List.mem_of_getElem? (hat' r b' hb')
  have hdk := h.spends b hbmem d (List.mem_of_getElem? hn) hbd k hk
  -- between the two occurrences of `b` its key is created by a batch of the square
  obtain ⟨l, e, hl, hl', he, hek⟩ := h.creator_between (by omega) (hat r b hr) (hat' r b' hb') hk
    (h.spends b hbmem b' hbmem' hbb k hk)
  refine h.first_spends_nothing (P := fun l => ∃ b ∈ sq, label b = l) hn hfirst hdk (List.mem_of_getElem? he) hek ?_
  by_cases hmid : l < pre.length + sq.length
  · obtain ⟨f, hf⟩ : ∃ f, sq[l - pre.length]? = some f := exists_getElem? (by omega)
    have := hat _ f hf
    rw [show pre.length + (l - pre.length) = l by omega, he] at this
    cases this
    exact ⟨e, List.mem_of_getElem? hf, rfl⟩
  · obtain ⟨f, hf⟩ : ∃ f, sq[l - (pre.length + sq.length)]? = some f :=
      exists_getElem? (by omega)
    obtain ⟨f', hf'⟩ : ∃ f', sq'[l - (pre.length + sq.length)]? = some f' :=
      exists_getElem? (by omega)
    have := hat' _ f' hf'
    rw [show pre.length + sq.length + (l - (pre.length + sq.length)) = l by omega, he] at this
    cases this
    have hff := hlabels (l - (pre.length + sq.length))
    rw [hf, hf'] at hff
    exact ⟨f, List.mem_of_getElem? hf, by simpa using hff⟩

/-- **No repetition**: batches, each of which creates something, are not run again later when
    nothing in between spends: the last of them would create what is still there. -/
theorem no_repeat (h : Labelled allowed cs batch label) {pre sq mid sq' post : List α}
    (hcs : cs = pre ++ sq ++ (mid ++ sq' ++ post)) (hlabel : sq.map label = sq'.map label)
    (hmid : ∀ c ∈ mid, ∀ k, ¬ (batch c).Spends k)
    (hcreate : ∀ c ∈ sq, ∃ k, ∀ d ∈ cs, label d = label c → (batch d).Creates k) : sq = [] := by
  by_contra hne
  -- each of them creates something that another one spends
  have hspender : ∀ c ∈ sq, ∃ s ∈ sq, ∃ k, (batch c).Creates k ∧ (batch s).Spends k := by
    intro c hc
    obtain ⟨k, hk⟩ := hcreate c hc
    obtain ⟨r, hr⟩ := List.mem_iff_getElem?.1 hc
    have hrlt := (List.getElem?_eq_some_iff.1 hr).1
    have hlen : sq.length = sq'.length := by simpa using congrArg List.length hlabel
    obtain ⟨c', hr'⟩ : ∃ c', sq'[r]? = some c' := exists_getElem? (by omega)
    have hlab : label c' = label c := by
      have := congrArg (·[r]?) hlabel
      simpa [hr, hr'] using this.symm
    have hi : cs[pre.length + r]? = some c := by
      rw [hcs, List.append_assoc, List.getElem?_append_right (by omega), Nat.add_sub_cancel_left,
        List.getElem?_append_left hrlt, hr]
    have hj : cs[pre.length + sq.length + mid.length + r]? = some c' := by
      rw [hcs, List.getElem?_append_right (by simp; omega), List.append_assoc,
        List.getElem?_append_right (by simp; omega), List.getElem?_append_left (by simp; omega)]
      rw [← hr']
      congr 1
      simp only [List.length_append]
      omega
    obtain ⟨l, e, hl, hl', he, hek⟩ := h.spender_between (by omega) hi hj
      (hk c (List.mem_of_getElem? hi) rfl) (hk c' (List.mem_of_getElem? hj) hlab)
    have hemem := List.mem_of_getElem? he
    have hin : e ∈ sq ∨ e ∈ mid ∨ e ∈ sq' := by
      rw [hcs, List.append_assoc, List.getElem?_append_right (by omega)] at he
      rw [show sq ++ (mid ++ sq' ++ post) = (sq ++ (mid ++ sq')) ++ post by simp,
        List.getElem?_append_left (by simp; omega)] at he
      simpa using List.mem_of_getElem? he
    have hcin := hk c (List.mem_of_getElem? hi) rfl
    rcases hin with hin | hin | hin
    · exact ⟨e, hin, k, hcin, hek⟩
    · exact absurd hek (hmid e hin k)
    · obtain ⟨s, hs, hlabel'⟩ : ∃ s ∈ sq, label s = label e := by
        have : label e ∈ sq.map label := hlabel ▸ List.mem_map_of_mem hin
        simpa using this
      exact ⟨s, hs, k, hcin, h.spends e hemem s (by rw [hcs]; simp [hs]) hlabel'.symm k hek⟩
  -- so one of them starts later than any position
  have hlate : ∀ n : ℕ, ∃ c ∈ sq, ∀ j < n, ∀ d, cs[j]? = some d → label d ≠ label c := by
    intro n
    induction n with
    | zero =>
      obtain ⟨c, hc⟩ := List.exists_mem_of_ne_nil sq hne
      exact ⟨c, hc, fun j hj => absurd hj (Nat.not_lt_zero j)⟩
    | succ n ih =>
      obtain ⟨c, hc, hcn⟩ := ih
      obtain ⟨s, hs, k, hck, hsk⟩ := hspender c hc
      refine ⟨s, hs, fun j hj d hd hlab => ?_⟩
      have hcmem : c ∈ cs := by rw [hcs]; simp [hc]
      have hsmem : s ∈ cs := by rw [hcs]; simp [hs]
      have hdk := h.spends s hsmem d (List.mem_of_getElem? hd) hlab.symm k hsk
      obtain ⟨i, e, hij, hi, hek⟩ := h.creator_before hd hdk
      exact hcn i (by omega) e hi (h.creates e (List.mem_of_getElem? hi) c hcmem k hek hck)
  obtain ⟨c, hc, hcn⟩ := hlate cs.length
  have hcmem : c ∈ cs := by rw [hcs]; simp [hc]
  obtain ⟨i, hi⟩ := List.mem_iff_getElem?.1 hcmem
  exact hcn i (List.getElem?_eq_some_iff.1 hi).1 c hi rfl

end Labelled

end Ledger
