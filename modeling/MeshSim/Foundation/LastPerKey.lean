import Mathlib

/-!
# Keeping the last record of a key

Records arrive with keys.  `push` appends a record to a list, or puts it in the place of the last
one when that has the same key.  A cache of one record does the same to a log that can only be
appended to (`Cache.flush_record`).  When the keys do not decrease, the list holds one record for
each key, the last one that arrived, in the order of the keys (`mem_push`).
-/

namespace LastPerKey

variable {α β κ : Type*}

section Push

variable [DecidableEq κ] (key : α → κ)

/-- A record takes the place of the last one if that has the same key. -/
def push (L : List α) (x : α) : List α :=
  match L.getLast? with
  | none => [x]
  | some y => if key y = key x then L.dropLast ++ [x] else L ++ [x]

/-- The first record. -/
@[simp] lemma push_nil (x : α) : push key [] x = [x] := rfl

/-- A record behind another one. -/
lemma push_concat (L : List α) (y x : α) :
    push key (L ++ [y]) x = if key y = key x then L ++ [x] else L ++ [y] ++ [x] := by
  rw [push, List.getLast?_concat, List.dropLast_concat]

/-- What is kept does not depend on more than the keys. -/
lemma map_push (f : α → β) (key : β → κ) (L : List α) (x : α) :
    (push (fun a => key (f a)) L x).map f = push key (L.map f) (f x) := by
  induction L using List.reverseRecOn with
  | nil => rfl
  | append_singleton L y _ =>
    rw [List.map_append, List.map_singleton, push_concat, push_concat]
    split <;> simp

/-- The same for all records. -/
lemma map_foldl_push (f : α → β) (key : β → κ) (L xs : List α) :
    (xs.foldl (push fun a => key (f a)) L).map f = (xs.map f).foldl (push key) (L.map f) := by
  induction xs generalizing L with
  | nil => rfl
  | cons x xs ih => rw [List.foldl_cons, ih, map_push, List.map_cons, List.foldl_cons]

end Push

/-! ### A cache of one record -/

/-- A log with a cache of one record in front of it. -/
structure Cache (α : Type*) where
  /-- The records that were logged. -/
  log : List α
  /-- The record in the cache. -/
  cached : Option α

namespace Cache

variable [DecidableEq κ] (key : α → κ)

/-- The cache before the first record. -/
def empty : Cache α where
  log := []
  cached := none

/-- A record is cached.  The cached one is logged if it has another key, and dropped otherwise. -/
def record (c : Cache α) (x : α) : Cache α where
  log := match c.cached with
    | none => c.log
    | some y => if key y = key x then c.log else c.log ++ [y]
  cached := some x

/-- The log with the cached record. -/
def flush (c : Cache α) : List α := c.log ++ c.cached.toList

/-- Caching a record is pushing it, once the cache is in use. -/
lemma flush_record {c : Cache α} (hc : c.cached = none → c.log = []) (x : α) :
    (c.record key x).flush = push key c.flush x := by
  obtain ⟨log, _ | y⟩ := c
  · have hlog : log = [] := hc rfl
    rw [hlog]
    rfl
  · have hflush : (Cache.mk log (some y)).flush = log ++ [y] := rfl
    have hrecord : ((Cache.mk log (some y)).record key x).flush =
        (if key y = key x then log else log ++ [y]) ++ [x] := rfl
    rw [hflush, push_concat, hrecord]
    split <;> rfl

/-- **The cache keeps the last record of a key.** -/
theorem flush_foldl_record (xs : List α) :
    (xs.foldl (record key) empty).flush = xs.foldl (push key) [] := by
  suffices h : ∀ c : Cache α, (c.cached = none → c.log = []) →
      (xs.foldl (record key) c).flush = xs.foldl (push key) c.flush from
    h empty fun _ => rfl
  induction xs with
  | nil => exact fun _ _ => rfl
  | cons x xs ih =>
    intro c hc
    rw [List.foldl_cons, List.foldl_cons, ih, flush_record key hc]
    exact fun h => by cases h

end Cache

/-! ### Keys that do not decrease -/

section Order

variable [LinearOrder κ] {key : α → κ}

/-- **One record for each key.** A record whose key is not smaller than those before it replaces the
one with its key, and the records stay in the order of their keys. -/
theorem mem_push {L : List α} {x : α} (hL : L.Pairwise fun a b => key a < key b)
    (hx : ∀ a ∈ L, key a ≤ key x) :
    ((push key L x).Pairwise fun a b => key a < key b) ∧
      ∀ a, a ∈ push key L x ↔ a = x ∨ a ∈ L ∧ key a ≠ key x := by
  induction L using List.reverseRecOn with
  | nil => exact ⟨List.pairwise_singleton _ _, fun a => by simp⟩
  | append_singleton L y _ =>
    obtain ⟨hpair, -, hlast⟩ := List.pairwise_append.mp hL
    have hlast : ∀ a ∈ L, key a < key y := fun a ha => hlast a ha y (List.mem_singleton_self y)
    have hy : key y ≤ key x := hx y (List.mem_append_right _ (List.mem_singleton_self y))
    rw [push_concat]
    split
    · rename_i hkey
      have hltx : ∀ a ∈ L, key a < key x := fun a ha => hkey ▸ hlast a ha
      refine ⟨List.pairwise_append.mpr ⟨hpair, List.pairwise_singleton _ _, fun a ha b hb => ?_⟩,
        fun a => ?_⟩
      · rw [List.mem_singleton.mp hb]
        exact hltx a ha
      · constructor
        · intro ha
          rcases List.mem_append.mp ha with ha | ha
          · exact Or.inr ⟨List.mem_append_left _ ha, (hltx a ha).ne⟩
          · exact Or.inl (List.mem_singleton.mp ha)
        · rintro (rfl | ⟨ha, hne⟩)
          · exact List.mem_append_right _ (List.mem_singleton_self a)
          · rcases List.mem_append.mp ha with ha | ha
            · exact List.mem_append_left _ ha
            · rw [List.mem_singleton.mp ha] at hne
              exact absurd hkey hne
    · rename_i hkey
      have hltx : ∀ a ∈ L ++ [y], key a < key x := by
        intro a ha
        rcases List.mem_append.mp ha with ha | ha
        · exact (hlast a ha).trans_le hy
        · rw [List.mem_singleton.mp ha]
          exact lt_of_le_of_ne hy hkey
      refine ⟨List.pairwise_append.mpr ⟨hL, List.pairwise_singleton _ _, fun a ha b hb => ?_⟩,
        fun a => ?_⟩
      · rw [List.mem_singleton.mp hb]
        exact hltx a ha
      · constructor
        · intro ha
          rcases List.mem_append.mp ha with ha | ha
          · exact Or.inr ⟨ha, (hltx a ha).ne⟩
          · exact Or.inl (List.mem_singleton.mp ha)
        · rintro (rfl | ⟨ha, -⟩)
          · exact List.mem_append_right _ (List.mem_singleton_self a)
          · exact List.mem_append_left _ ha

end Order

end LastPerKey
