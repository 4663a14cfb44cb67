import Mathlib

/-!
# Sources of a constant bit rate

A source sends packets of one size at a constant bit rate, and can be interrupted and resumed.  It
waits for the time that the bits of a packet take, and sends the packet.  When it is interrupted
while it waits, it keeps the number of bits that have been waited for (the residual bits), and waits
for the others when it is resumed.

Both the time of a number of bits and the number of bits in a time are rounded down, and at most one
nanosecond or one bit is lost (`Truncates`).  Then the residual bits are never more than those of a
packet (`Reachable.residual_le`), and the number of packets sent is determined by the time that the
source was sending, but for the nanoseconds and bits lost and the packet that is waited for
(`Reachable.sent_le` and `Reachable.le_sent`).
-/

/-- A source of a constant bit rate. -/
structure CbrSource where
  /-- The bits of a packet. -/
  packetBits : ℕ
  /-- The bits a second. -/
  rate : ℕ
  /-- The time, in nanoseconds, that a number of bits takes. -/
  timeOf : ℕ → ℕ
  /-- The bits in a time in nanoseconds. -/
  bitsIn : ℕ → ℕ

namespace CbrSource

/-- Times and numbers of bits are rounded down, and at most one unit is lost. -/
structure Truncates (C : CbrSource) : Prop where
  /-- A time is rounded down. -/
  timeOf_le : ∀ b, C.timeOf b * C.rate ≤ b * 10 ^ 9
  /-- At most a nanosecond is lost. -/
  le_timeOf : ∀ b, b * 10 ^ 9 ≤ (C.timeOf b + 1) * C.rate
  /-- A number of bits is rounded down. -/
  bitsIn_le : ∀ d, C.bitsIn d * 10 ^ 9 ≤ d * C.rate
  /-- At most a bit is lost. -/
  le_bitsIn : ∀ d, d * C.rate ≤ (C.bitsIn d + 1) * 10 ^ 9

/-- What a source is doing. -/
inductive Mode where
  /-- It is interrupted. -/
  | paused
  /-- It has been waiting since one time, and is going to send at another one. -/
  | sending (last due : ℕ)
deriving DecidableEq

/-- The state of a source, and what has happened to it. -/
structure State where
  /-- The current time. -/
  now : ℕ
  /-- What the source is doing. -/
  mode : Mode
  /-- The residual bits. -/
  residual : ℕ
  /-- The number of packets sent. -/
  sent : ℕ
  /-- The time that the source was sending. -/
  onTime : ℕ
  /-- How often the source was interrupted. -/
  interruptions : ℕ

/-- At time zero the source has not done anything. -/
def start : State where
  now := 0
  mode := .paused
  residual := 0
  sent := 0
  onTime := 0
  interruptions := 0

/-- What a source can do. -/
inductive Move (C : CbrSource) : State → State → Prop where
  /-- Time passes while the source is paused. -/
  | rest (s : State) (t : ℕ) (hmode : s.mode = .paused) (hnow : s.now ≤ t) :
    Move C s { s with now := t }
  /-- Time passes while the source is sending, but not beyond the next packet. -/
  | wait (s : State) (t last due : ℕ) (hmode : s.mode = .sending last due) (hnow : s.now ≤ t)
    (hdue : t ≤ due) : Move C s { s with now := t, onTime := s.onTime + (t - s.now) }
  /-- The source is resumed. -/
  | resume (s : State) (hmode : s.mode = .paused) :
    Move C s { s with
      mode := .sending s.now (s.now + C.timeOf (C.packetBits - s.residual)) }
  /-- The source is interrupted. -/
  | interrupt (s : State) (last due : ℕ) (hmode : s.mode = .sending last due) :
    Move C s { s with
      mode := .paused
      residual := s.residual + C.bitsIn (s.now - last)
      interruptions := s.interruptions + 1 }
  /-- A packet is sent, and the source goes on. -/
  | send (s : State) (last : ℕ) (hmode : s.mode = .sending last s.now) :
    Move C s { s with
      mode := .sending s.now (s.now + C.timeOf C.packetBits)
      residual := 0
      sent := s.sent + 1 }
  /-- The last packet is sent. -/
  | finish (s : State) (last : ℕ) (hmode : s.mode = .sending last s.now) :
    Move C s { s with mode := .paused, residual := 0, sent := s.sent + 1 }

variable {C : CbrSource}

/-- The states that a source reaches. -/
def Reachable (C : CbrSource) : State → Prop := Relation.ReflTransGen (Move C) start

/-- A reachable state moves to reachable states. -/
lemma Reachable.move {s s' : State} (h : Reachable C s) (hmove : Move C s s') : Reachable C s' :=
  Relation.ReflTransGen.tail h hmove

/-- The time that a source was sending before it started to wait. -/
def State.settled (s : State) : ℕ :=
  match s.mode with
  | .paused => s.onTime
  | .sending last _ => s.onTime - (s.now - last)

/-- All the time of a paused source is settled. -/
lemma State.settled_of_paused {s : State} (h : s.mode = .paused) : s.settled = s.onTime := by
  rw [settled, h]

/-- The time that a source is waiting is not settled. -/
lemma State.settled_of_sending {s : State} {last due : ℕ} (h : s.mode = .sending last due) :
    s.settled = s.onTime - (s.now - last) := by
  rw [settled, h]

/-- The times of a source that is waiting. -/
structure State.Waits (C : CbrSource) (s : State) (last due : ℕ) : Prop where
  /-- It started to wait in the past. -/
  last_le : last ≤ s.now
  /-- It has not waited too long. -/
  le_due : s.now ≤ due
  /-- It was sending while it waited. -/
  sub_le : s.now - last ≤ s.onTime
  /-- It waits for the bits of a packet, but for the residual ones. -/
  due_eq : due = last + C.timeOf (C.packetBits - s.residual)

/-- **The invariant.** The residual bits are at most those of a packet, the times of a waiting
source are in order, and the bits accounted for are those of the time before the source started to
wait, but for what was lost in the conversions. -/
structure Accounted (C : CbrSource) (s : State) : Prop where
  /-- The residual bits are at most those of a packet. -/
  residual_le : s.residual ≤ C.packetBits
  /-- The times of a waiting source are in order. -/
  waits : ∀ last due, s.mode = .sending last due → s.Waits C last due
  /-- Every packet took its time, but for a nanosecond. -/
  bits_le : (s.sent * C.packetBits + s.residual) * 10 ^ 9 ≤ (s.settled + s.sent) * C.rate
  /-- Every interruption lost at most a bit. -/
  le_bits : s.settled * C.rate ≤ (s.sent * C.packetBits + s.residual + s.interruptions) * 10 ^ 9

/-- At the start nothing is to be accounted for. -/
lemma accounted_start : Accounted C start where
  residual_le := Nat.zero_le _
  waits := fun _ _ h => nomatch h
  bits_le := by simp [start]
  le_bits := by simp [start, State.settled]

/-- What has been waited for is at most what is left to wait for. -/
lemma Truncates.bitsIn_le_of_le (h : C.Truncates) {d b : ℕ} (hd : d ≤ C.timeOf b) :
    C.bitsIn d ≤ b := by
  refine Nat.le_of_mul_le_mul_right ?_ (show 0 < 10 ^ 9 by positivity)
  calc C.bitsIn d * 10 ^ 9 ≤ d * C.rate := h.bitsIn_le d
    _ ≤ C.timeOf b * C.rate := Nat.mul_le_mul_right _ hd
    _ ≤ b * 10 ^ 9 := h.timeOf_le b

/-- The bits of the time until the source is interrupted are at most those left to wait for. -/
lemma Accounted.bitsIn_le (htrunc : C.Truncates) {s : State} (h : Accounted C s) {last due : ℕ}
    (hmode : s.mode = .sending last due) :
    C.bitsIn (s.now - last) ≤ C.packetBits - s.residual := by
  have hwaits := h.waits last due hmode
  have hdue := hwaits.le_due
  rw [hwaits.due_eq] at hdue
  exact htrunc.bitsIn_le_of_le (by omega)

/-- When the source is interrupted, the time that it waited is settled. -/
lemma Accounted.interrupt (htrunc : C.Truncates) {s : State} (h : Accounted C s) {last due : ℕ}
    (hmode : s.mode = .sending last due) :
    (s.sent * C.packetBits + (s.residual + C.bitsIn (s.now - last))) * 10 ^ 9 ≤
        (s.onTime + s.sent) * C.rate ∧
      s.onTime * C.rate ≤ (s.sent * C.packetBits + (s.residual + C.bitsIn (s.now - last)) +
        (s.interruptions + 1)) * 10 ^ 9 := by
  have hdown := htrunc.bitsIn_le (s.now - last)
  have hup := htrunc.le_bitsIn (s.now - last)
  have hbits := h.bits_le
  have hle := h.le_bits
  obtain ⟨settled, honeq⟩ := Nat.exists_eq_add_of_le' (h.waits last due hmode).sub_le
  rw [State.settled_of_sending hmode, honeq, Nat.add_sub_cancel] at hbits hle
  rw [honeq]
  constructor <;> linarith

/-- When a packet is sent, the time that the source waited is settled. -/
lemma Accounted.send (htrunc : C.Truncates) {s : State} (h : Accounted C s) {last : ℕ}
    (hmode : s.mode = .sending last s.now) :
    ((s.sent + 1) * C.packetBits + 0) * 10 ^ 9 ≤ (s.onTime + (s.sent + 1)) * C.rate ∧
      s.onTime * C.rate ≤ ((s.sent + 1) * C.packetBits + 0 + s.interruptions) * 10 ^ 9 := by
  have hwaits := h.waits last s.now hmode
  have hwaited : s.now - last = C.timeOf (C.packetBits - s.residual) := by
    have hdue := hwaits.due_eq
    omega
  have hdown := htrunc.timeOf_le (C.packetBits - s.residual)
  have hup := htrunc.le_timeOf (C.packetBits - s.residual)
  have hbits := h.bits_le
  have hle := h.le_bits
  obtain ⟨settled, honeq⟩ := Nat.exists_eq_add_of_le' hwaits.sub_le
  rw [State.settled_of_sending hmode, honeq, Nat.add_sub_cancel] at hbits hle
  obtain ⟨left, hleft⟩ := Nat.exists_eq_add_of_le h.residual_le
  rw [honeq, hwaited]
  rw [hleft, Nat.add_sub_cancel_left] at hdown hup ⊢
  rw [hleft] at hbits hle
  constructor <;> linarith

/-- **Every move is accounted for.** -/
theorem Accounted.move (htrunc : C.Truncates) {s s' : State} (h : Accounted C s)
    (hmove : Move C s s') : Accounted C s' := by
  cases hmove with
  | rest t hmode hnow =>
    have hbits := h.bits_le
    have hle := h.le_bits
    rw [State.settled_of_paused hmode] at hbits hle
    refine ⟨h.residual_le, fun _ _ h => ?_, ?_, ?_⟩
    · cases hmode.symm.trans h
    · rwa [State.settled_of_paused (s := { s with now := t }) hmode]
    · rwa [State.settled_of_paused (s := { s with now := t }) hmode]
  | wait t last due hmode hnow hdue =>
    have hwaits := h.waits last due hmode
    have hlast := hwaits.last_le
    have hsub := hwaits.sub_le
    have hsettled :
        State.settled { s with now := t, onTime := s.onTime + (t - s.now) } = s.settled := by
      have hwaiting : State.settled { s with now := t, onTime := s.onTime + (t - s.now) } =
          s.onTime + (t - s.now) - (t - last) := State.settled_of_sending hmode
      rw [hwaiting, State.settled_of_sending hmode]
      omega
    refine ⟨h.residual_le, fun last' due' h' => ?_, ?_, ?_⟩
    · obtain ⟨rfl, rfl⟩ := Mode.sending.inj (hmode.symm.trans h')
      exact ⟨hlast.trans hnow, hdue, by dsimp only; omega, hwaits.due_eq⟩
    · rw [hsettled]
      exact h.bits_le
    · rw [hsettled]
      exact h.le_bits
  | resume hmode =>
    have hbits := h.bits_le
    have hle := h.le_bits
    rw [State.settled_of_paused hmode] at hbits hle
    refine ⟨h.residual_le, ?_, ?_, ?_⟩
    · rintro _ _ ⟨⟩
      exact ⟨le_rfl, Nat.le_add_right _ _, by simp, rfl⟩
    · simpa [State.settled] using hbits
    · simpa [State.settled] using hle
  | interrupt last due hmode =>
    obtain ⟨hbits, hle⟩ := h.interrupt htrunc hmode
    have hin := h.bitsIn_le htrunc hmode
    have hres := h.residual_le
    exact ⟨by dsimp only; omega, fun _ _ h => (nomatch h), hbits, hle⟩
  | send last hmode =>
    obtain ⟨hbits, hle⟩ := h.send htrunc hmode
    refine ⟨Nat.zero_le _, ?_, ?_, ?_⟩
    · rintro _ _ ⟨⟩
      exact ⟨le_rfl, Nat.le_add_right _ _, by simp, rfl⟩
    · simpa [State.settled] using hbits
    · simpa [State.settled] using hle
  | finish last hmode =>
    obtain ⟨hbits, hle⟩ := h.send htrunc hmode
    exact ⟨Nat.zero_le _, fun _ _ h => (nomatch h), hbits, hle⟩

/-- The invariant holds of every reachable state. -/
theorem Reachable.accounted (htrunc : C.Truncates) {s : State} (h : Reachable C s) :
    Accounted C s := by
  induction h with
  | refl => exact accounted_start
  | tail _ hmove ih => exact ih.move htrunc hmove

/-- **A source is not faster than its rate**: but for a nanosecond of each, the packets sent took
the time that the source was sending. -/
theorem Reachable.sent_le (htrunc : C.Truncates) {s : State} (h : Reachable C s) :
    s.sent * C.packetBits * 10 ^ 9 ≤ (s.onTime + s.sent) * C.rate := by
  have hacc := h.accounted htrunc
  have hsettled : s.settled ≤ s.onTime := by
    unfold State.settled
    split
    · exact le_rfl
    · exact Nat.sub_le _ _
  calc s.sent * C.packetBits * 10 ^ 9
      ≤ (s.sent * C.packetBits + s.residual) * 10 ^ 9 := by gcongr; exact Nat.le_add_right _ _
    _ ≤ (s.settled + s.sent) * C.rate := hacc.bits_le
    _ ≤ (s.onTime + s.sent) * C.rate := by gcongr

/-- **A source is not slower than its rate**: but for the packet that it waits for and a bit of each
interruption, the time that the source was sending went into the packets sent. -/
theorem Reachable.le_sent (htrunc : C.Truncates) {s : State} (h : Reachable C s) :
    s.onTime * C.rate ≤ ((s.sent + 1) * C.packetBits + s.interruptions) * 10 ^ 9 := by
  have hacc := h.accounted htrunc
  have hle := hacc.le_bits
  obtain ⟨left, hleft⟩ := Nat.exists_eq_add_of_le hacc.residual_le
  cases hmode : s.mode with
  | paused =>
    rw [State.settled_of_paused hmode] at hle
    rw [hleft] at hle ⊢
    linarith
  | sending last due =>
    have hwaits := hacc.waits last due hmode
    obtain ⟨settled, honeq⟩ := Nat.exists_eq_add_of_le' hwaits.sub_le
    rw [State.settled_of_sending hmode, honeq, Nat.add_sub_cancel] at hle
    have hwaited : (s.now - last) * C.rate ≤ (C.packetBits - s.residual) * 10 ^ 9 := by
      have hdue := hwaits.le_due
      rw [hwaits.due_eq] at hdue
      exact (Nat.mul_le_mul_right _ (by omega)).trans (htrunc.timeOf_le _)
    rw [hleft, Nat.add_sub_cancel_left] at hwaited
    rw [honeq]
    rw [hleft] at hle ⊢
    linarith

end CbrSource
