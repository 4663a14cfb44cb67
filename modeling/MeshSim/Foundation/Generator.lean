import Mathlib

/-!
# Generators over a shared state

A generator in the sense of Python: a computation that yields values one after another and is
suspended in between.  It works on a state that it shares with its consumer, so that it may find the
state changed when it is resumed.  `Outcome` is what a generator does until it yields, returns or
raises, together with what it does when it is resumed.

`Produces` specifies a generator by rely and guarantee: it yields values that mean the members of a
list, as long as its consumer changes the state only as `rely` allows, and itself changes the state
only as `guar` allows.  The rules follow the control structures.
-/

namespace Generator

variable {σ ρ τ ι β γ : Type*}

/-- What a generator does when it is started or resumed. -/
inductive Outcome (σ ρ : Type*) where
  /-- It returns. -/
  | done (s : σ)
  /-- It raises an exception. -/
  | raise (s : σ)
  /-- It yields a value, and waits to be resumed. -/
  | yield (s : σ) (r : ρ) (rest : σ → Outcome σ ρ)

/-- A generator that is not started. -/
def Gen (σ ρ : Type*) := σ → Outcome σ ρ

namespace Outcome

/-- Going on with another generator when this one returns. -/
def andThen (o : Outcome σ ρ) (k : Gen σ ρ) : Outcome σ ρ :=
  match o with
  | .done s => k s
  | .raise s => .raise s
  | .yield s r rest => .yield s r fun s' => (rest s').andThen k

/-- `for r in o: body (r)`. -/
def forEach (o : Outcome σ ρ) (body : ρ → Gen σ τ) : Outcome σ τ :=
  match o with
  | .done s => .done s
  | .raise s => .raise s
  | .yield s r rest => (body r s).andThen fun s' => (rest s').forEach body

/-- `list (o)`: the values, unless an exception is raised, and the state in the end. -/
def toList (o : Outcome σ ρ) : Option (List ρ) × σ :=
  match o with
  | .done s => (some [], s)
  | .raise s => (none, s)
  | .yield s r rest => (((rest s).toList.1).map (r :: ·), (rest s).toList.2)

/-- The states in which the values are yielded, with the values. -/
def trace (o : Outcome σ ρ) : List (σ × ρ) :=
  match o with
  | .done _ => []
  | .raise _ => []
  | .yield s r rest => (s, r) :: (rest s).trace

end Outcome

/-- `yield r`. -/
def emit (r : ρ) : Gen σ ρ := fun s => .yield s r .done

/-- `for x in xs: body (x)`, for the elements of a list. -/
def overList (body : ι → Gen σ ρ) : List ι → Gen σ ρ
  | [] => .done
  | x :: xs => fun s => (body x s).andThen (overList body xs)

/-- Without an exception there is a value for every time that the generator yields. -/
lemma Outcome.map_snd_trace {o : Outcome σ ρ} {rs : List ρ} {s : σ} (h : o.toList = (some rs, s)) :
    o.trace.map Prod.snd = rs := by
  induction o generalizing rs with
  | done s' =>
    cases h
    rfl
  | raise s' => cases h
  | yield s' r rest ih =>
    obtain ⟨hrs, hs⟩ := Prod.mk.inj h
    obtain ⟨rs', hrest, rfl⟩ := Option.map_eq_some_iff.mp hrs
    rw [trace, List.map_cons, ih s' (Prod.ext hrest hs)]

/-! ### Specifications -/

/-- The generator yields values that mean the members of a list.  The consumer changes the state
only as `rely` allows, and the generator only as `guar` allows.  `good s₀ s r b` says that `r` means
`b` in the state `s`, for a generator that was resumed in the state `s₀`. -/
def Produces (rely guar : σ → σ → Prop) (good : σ → σ → ρ → β → Prop) :
    List β → σ → Outcome σ ρ → Prop
  | [], s₀, o => ∃ s, o = .done s ∧ guar s₀ s
  | b :: bs, s₀, o => ∃ s r rest, o = .yield s r rest ∧ guar s₀ s ∧ good s₀ s r b ∧
      ∀ s', rely s s' → Produces rely guar good bs s' (rest s')

section Rules

variable {rely guar : σ → σ → Prop} {good : σ → σ → ρ → β → Prop}

/-- A specification may be weakened. -/
lemma Produces.mono {rely' guar' : σ → σ → Prop} {good' : σ → σ → ρ → β → Prop}
    (hrely : ∀ s s', rely' s s' → rely s s') (hguar : ∀ s s', guar s s' → guar' s s')
    (hgood : ∀ s₀ s r b, guar s₀ s → good s₀ s r b → good' s₀ s r b) {bs : List β} {s₀ : σ}
    {o : Outcome σ ρ} (h : Produces rely guar good bs s₀ o) :
    Produces rely' guar' good' bs s₀ o := by
  induction bs generalizing s₀ o with
  | nil =>
    obtain ⟨s, rfl, hs⟩ := h
    exact ⟨s, rfl, hguar _ _ hs⟩
  | cons b bs ih =>
    obtain ⟨s, r, rest, rfl, hs, hr, hrest⟩ := h
    exact ⟨s, r, rest, rfl, hguar _ _ hs, hgood _ _ _ _ hs hr,
      fun s' hs' => ih (hrest s' (hrely _ _ hs'))⟩

/-- A generator that is started later produces the same. -/
lemma Produces.start (htrans : ∀ s s' s'', guar s s' → guar s' s'' → guar s s'')
    (hgood : ∀ s₀ s₁ s r b, guar s₀ s₁ → good s₁ s r b → good s₀ s r b) {bs : List β} {s₀ s₁ : σ}
    (hstart : guar s₀ s₁) {o : Outcome σ ρ} (h : Produces rely guar good bs s₁ o) :
    Produces rely guar good bs s₀ o := by
  cases bs with
  | nil =>
    obtain ⟨s, rfl, hs⟩ := h
    exact ⟨s, rfl, htrans _ _ _ hstart hs⟩
  | cons b bs =>
    obtain ⟨s, r, rest, rfl, hs, hr, hrest⟩ := h
    exact ⟨s, r, rest, rfl, htrans _ _ _ hstart hs, hgood _ _ _ _ _ hstart hr, hrest⟩

/-- **Sequential composition.** The second generator may assume what is kept by both sides while
the first one runs. -/
theorem Produces.andThen {kept : σ → σ → Prop}
    (htrans' : ∀ s s' s'', kept s s' → kept s' s'' → kept s s'')
    (hrely : ∀ s s', rely s s' → kept s s') (hguar : ∀ s s', guar s s' → kept s s')
    (htrans : ∀ s s' s'', guar s s' → guar s' s'' → guar s s'')
    (hgood : ∀ s₀ s₁ s r b, guar s₀ s₁ → good s₁ s r b → good s₀ s r b) {bs bs' : List β} {s₀ : σ}
    {o : Outcome σ ρ} {k : Gen σ ρ} (h : Produces rely guar good bs s₀ o)
    (hk : ∀ s, kept s₀ s → Produces rely guar good bs' s (k s)) :
    Produces rely guar good (bs ++ bs') s₀ (o.andThen k) := by
  induction bs generalizing s₀ o with
  | nil =>
    obtain ⟨s, rfl, hs⟩ := h
    exact (hk s (hguar _ _ hs)).start htrans hgood hs
  | cons b bs ih =>
    obtain ⟨s, r, rest, rfl, hs, hr, hrest⟩ := h
    refine ⟨s, r, _, rfl, hs, hr, fun s' hs' => ih (hrest s' hs') fun s'' hs'' => hk s'' ?_⟩
    exact htrans' _ _ _ (hguar _ _ hs) (htrans' _ _ _ (hrely _ _ hs') hs'')

end Rules

/-! ### Generators that keep a preorder

The rules for generators that rely on, and guarantee, one and the same preorder: nothing that holds
of a state and is preserved by it is lost. -/

section Preorder

variable {R : σ → σ → Prop} (hrefl : ∀ s, R s s) (htrans : ∀ s s' s'', R s s' → R s' s'' → R s s'')
  {means : σ → ρ → β → Prop}

include hrefl

/-- Yielding one value. -/
lemma produces_emit {s : σ} {r : ρ} {b : β} (h : means s r b) :
    Produces R R (fun _ => means) [b] s (emit r s) :=
  ⟨s, r, _, rfl, hrefl s, h, fun s' _ => ⟨s', rfl, hrefl s'⟩⟩

include htrans

/-- A loop over a list. -/
theorem produces_overList {body : ι → Gen σ ρ} {xs : List ι} {bss : List (List β)} {s₀ : σ}
    (h : List.Forall₂ (fun x bs => ∀ s, R s₀ s → Produces R R (fun _ => means) bs s (body x s))
      xs bss) : Produces R R (fun _ => means) bss.flatten s₀ (overList body xs s₀) := by
  induction xs generalizing bss s₀ with
  | nil =>
    cases h
    exact ⟨s₀, rfl, hrefl s₀⟩
  | cons x xs ih =>
    obtain ⟨bs, bss, hx, hxs, rfl⟩ := List.forall₂_cons_left_iff.mp h
    refine (hx s₀ (hrefl s₀)).andThen htrans (fun _ _ => id) (fun _ _ => id) htrans
      (fun _ _ _ _ _ _ hr => hr) fun s hs => ih ?_
    exact hxs.imp fun x' bs' hx' s' hs' => hx' s' (htrans _ _ _ hs hs')

omit hrefl in
/-- A loop over a generator. -/
theorem Produces.forEach {means' : σ → τ → γ → Prop} {body : ρ → Gen σ τ} {f : β → List γ}
    {bs : List β} {s₀ : σ} {o : Outcome σ ρ} (h : Produces R R (fun _ => means) bs s₀ o)
    (hbody : ∀ s r b, R s₀ s → means s r b → Produces R R (fun _ => means') (f b) s (body r s)) :
    Produces R R (fun _ => means') (bs.flatMap f) s₀ (o.forEach body) := by
  induction bs generalizing s₀ o with
  | nil =>
    obtain ⟨s, rfl, hs⟩ := h
    exact ⟨s, rfl, hs⟩
  | cons b bs ih =>
    obtain ⟨s, r, rest, rfl, hs, hr, hrest⟩ := h
    have hrest' : Produces R R (fun _ => means') (f b ++ bs.flatMap f) s
        ((body r s).andThen fun s' => (rest s').forEach body) := by
      refine (hbody s r b hs hr).andThen htrans (fun _ _ => id) (fun _ _ => id) htrans
        (fun _ _ _ _ _ _ hr => hr) fun s' hs' => ih (hrest s' hs') fun s'' r' b' hs'' hr' => ?_
      exact hbody s'' r' b' (htrans _ _ _ hs (htrans _ _ _ hs' hs'')) hr'
    exact hrest'.start htrans (fun _ _ _ _ _ _ hr => hr) hs

/-- `list` returns values that mean the members of the list. -/
theorem Produces.toList (hkeep : ∀ s s' r b, R s s' → means s r b → means s' r b) {bs : List β}
    {s₀ : σ} {o : Outcome σ ρ} (h : Produces R R (fun _ => means) bs s₀ o) :
    ∃ rs s, o.toList = (some rs, s) ∧ R s₀ s ∧ List.Forall₂ (fun r b => means s r b) rs bs := by
  induction bs generalizing s₀ o with
  | nil =>
    obtain ⟨s, rfl, hs⟩ := h
    exact ⟨[], s, rfl, hs, .nil⟩
  | cons b bs ih =>
    obtain ⟨s, r, rest, rfl, hs, hr, hrest⟩ := h
    obtain ⟨rs, s', hlist, hs', hmeans⟩ := ih (hrest s (hrefl s))
    refine ⟨r :: rs, s', ?_, htrans _ _ _ hs hs', .cons (hkeep _ _ _ _ hs' hr) hmeans⟩
    rw [Outcome.toList, hlist]
    rfl

/-- What a value means when it is yielded it means in all later states. -/
theorem Produces.trace (hkeep : ∀ s s' r b, R s s' → means s r b → means s' r b) {bs : List β}
    {s₀ : σ} {o : Outcome σ ρ} (h : Produces R R (fun _ => means) bs s₀ o) :
    o.trace.Pairwise (fun p q => R p.1 q.1) ∧ (∀ p ∈ o.trace, R s₀ p.1 ∧ R p.1 o.toList.2) ∧
      List.Forall₂ (fun p b => means p.1 p.2 b) o.trace bs := by
  induction bs generalizing s₀ o with
  | nil =>
    obtain ⟨s, rfl, hs⟩ := h
    exact ⟨List.Pairwise.nil, fun p hp => (List.not_mem_nil hp).elim, List.Forall₂.nil⟩
  | cons b bs ih =>
    obtain ⟨s, r, rest, rfl, hs, hr, hrest⟩ := h
    obtain ⟨hpair, hall, hmeans⟩ := ih (hrest s (hrefl s))
    obtain ⟨rs, s', hlist, hs', -⟩ := (hrest s (hrefl s)).toList hrefl htrans hkeep
    refine ⟨.cons (fun q hq => (hall q hq).1) hpair, fun p hp => ?_, .cons hr hmeans⟩
    rcases List.mem_cons.mp hp with rfl | hp
    · refine ⟨hs, ?_⟩
      rw [Outcome.toList, hlist]
      exact hs'
    · exact ⟨htrans _ _ _ hs (hall p hp).1, (hall p hp).2⟩

end Preorder

end Generator
