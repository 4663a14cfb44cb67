import MeshSim.Routing.IoUtils

/-!
# The grammar of addresses

Which texts `read_ip_network_addr` of `sim/io_utils.cc` takes for addresses.  The numbers of
conversions of a `sscanf` format decide, and each conversion reads a `Numeral`: white space, a sign
and digits.  `readIpNetworkAddr_eq_ok_iff` says what is accepted, and `readsAddress_iff` when this
is what the grammar of addresses says.

Addresses that are written as numbers with dots between them are read back
(`readIpNetworkAddr_dotted`, `readIpNetworkAddr_dotted_slash`).
-/

namespace MeshSim

open MachineInt PythonText

/-! ### Numerals -/

/-- What `%d` reads: white space, a sign and digits. -/
structure Numeral where
  /-- The white space in front. -/
  spaces : List Char
  /-- The sign, if there is one. -/
  sign : List Char
  /-- The digits. -/
  digits : List Char
  /-- Only white space is skipped. -/
  isspace_spaces : ∀ c ∈ spaces, isspace c = true
  /-- There is one sign at most. -/
  sign_cases : sign = [] ∨ sign = ['+'] ∨ sign = ['-']
  /-- There is a digit. -/
  digits_ne_nil : digits ≠ []
  /-- Only digits are read. -/
  isDigit_digits : ∀ c ∈ digits, c.isDigit = true

namespace Numeral

/-- The text of a numeral. -/
def text (n : Numeral) : List Char := n.spaces ++ (n.sign ++ n.digits)

/-- The number that the digits write. -/
def value (n : Numeral) : ℕ := Nat.ofDigitChars 10 n.digits 0

/-- The number that is stored in an `unsigned int`. -/
def stored (n : Numeral) : ℕ :=
  u32 (if n.sign = ['-'] then max (-(n.value : ℤ)) (-2 ^ 63) else min (n.value : ℤ) (2 ^ 63 - 1))

end Numeral

/-- A text that does not start with a digit. -/
def NoDigit (rest : List Char) : Prop := ∀ c, rest.head? = some c → c.isDigit = false

/-- The end of the text is no digit. -/
lemma noDigit_nil : NoDigit [] := fun c hc => by cases hc

/-- A character that is no digit ends a numeral. -/
lemma noDigit_cons {c : Char} (hc : c.isDigit = false) (rest : List Char) :
    NoDigit (c :: rest) := by
  intro d hd
  rw [← Option.some.inj hd]
  exact hc

/-- Behind the digits that are read there is none. -/
lemma noDigit_dropWhile (s : List Char) : NoDigit (s.dropWhile Char.isDigit) := by
  intro c hc
  have h := List.head?_dropWhile_not Char.isDigit s
  rw [hc] at h
  exact h

/-- A digit is no white space. -/
lemma isspace_of_isDigit {c : Char} (hc : c.isDigit = true) : isspace c = false :=
  isspace_of_not_isSpace (isSpace_of_isDigit hc)

/-- The longest run of characters of a kind. -/
lemma span_append {p : Char → Bool} {front rest : List Char} (hfront : ∀ c ∈ front, p c = true)
    (hrest : ∀ c, rest.head? = some c → p c = false) :
    (front ++ rest).takeWhile p = front ∧ (front ++ rest).dropWhile p = rest := by
  rw [List.takeWhile_append_of_pos hfront, List.dropWhile_append_of_pos hfront]
  cases rest with
  | nil => exact ⟨List.append_nil _, rfl⟩
  | cons c cs =>
    have hc : ¬p c = true := by
      rw [hrest c rfl]
      exact Bool.false_ne_true
    rw [List.takeWhile_cons_of_neg hc, List.dropWhile_cons_of_neg hc]
    exact ⟨List.append_nil _, rfl⟩

namespace Numeral

/-- Behind the white space there is a sign or a digit. -/
lemma head_sign_digits (n : Numeral) (rest : List Char) :
    ∃ c, (n.sign ++ (n.digits ++ rest)).head? = some c ∧ isspace c = false ∧
      ((c = '-' ∨ c = '+') ∧ n.sign = [c] ∨ c.isDigit = true ∧ n.sign = []) := by
  obtain ⟨d, ds, hds⟩ := List.exists_cons_of_ne_nil n.digits_ne_nil
  rcases n.sign_cases with hsign | hsign | hsign
  · have hd : d.isDigit = true := n.isDigit_digits d (hds ▸ List.mem_cons_self)
    exact ⟨d, by rw [hsign, hds]; rfl, isspace_of_isDigit hd, Or.inr ⟨hd, hsign⟩⟩
  · exact ⟨'+', by rw [hsign]; rfl, by decide, Or.inl ⟨Or.inr rfl, hsign⟩⟩
  · exact ⟨'-', by rw [hsign]; rfl, by decide, Or.inl ⟨Or.inl rfl, hsign⟩⟩

/-- **Reading a numeral**, whatever follows that is not a digit. -/
theorem scanInt_text (n : Numeral) {rest : List Char} (hrest : NoDigit rest) :
    scanInt (n.text ++ rest) = some (n.stored, rest) := by
  obtain ⟨c, hhead, hspace, hsign⟩ := n.head_sign_digits rest
  have hdrop : (n.text ++ rest).dropWhile isspace = n.sign ++ (n.digits ++ rest) := by
    rw [text, List.append_assoc, List.append_assoc]
    refine (span_append n.isspace_spaces fun d hd => ?_).2
    rw [hhead, Option.some.injEq] at hd
    rwa [← hd]
  have hminus : (n.sign ++ (n.digits ++ rest)).head? = some '-' ↔ n.sign = ['-'] := by
    rw [hhead, Option.some.injEq]
    rcases hsign with ⟨-, hsign⟩ | ⟨hdigit, hsign⟩
    · rw [hsign, List.cons.injEq, and_iff_left rfl]
    · rw [hsign]
      exact ⟨fun h => absurd (h ▸ hdigit) (by decide), fun h => by cases h⟩
  have htail : (if (n.sign ++ (n.digits ++ rest)).head? = some '-' ∨
      (n.sign ++ (n.digits ++ rest)).head? = some '+' then (n.sign ++ (n.digits ++ rest)).tail
      else n.sign ++ (n.digits ++ rest)) = n.digits ++ rest := by
    simp only [hhead, Option.some.injEq]
    rcases hsign with ⟨hc, hsign⟩ | ⟨hdigit, hsign⟩
    · rw [if_pos hc, hsign]
      rfl
    · rw [if_neg, hsign, List.nil_append]
      rintro (rfl | rfl)
      · exact absurd hdigit (by decide)
      · exact absurd hdigit (by decide)
  obtain ⟨htake, hrest'⟩ := span_append n.isDigit_digits hrest
  simp only [scanInt, hdrop, htail, htake, hrest', if_neg n.digits_ne_nil]
  simp only [hminus, stored, value]

/-- A text starts with a sign, or it does not. -/
lemma exists_sign (t : List Char) : ∃ sign u, (sign = [] ∨ sign = ['+'] ∨ sign = ['-']) ∧
    t = sign ++ u ∧ (t.head? = some '-' ↔ sign = ['-']) ∧
    (if t.head? = some '-' ∨ t.head? = some '+' then t.tail else t) = u := by
  cases t with
  | nil => exact ⟨[], [], Or.inl rfl, rfl, by simp, rfl⟩
  | cons c cs =>
    by_cases hminus : c = '-'
    · subst hminus
      exact ⟨['-'], cs, Or.inr (Or.inr rfl), rfl, by simp, rfl⟩
    · by_cases hplus : c = '+'
      · subst hplus
        exact ⟨['+'], cs, Or.inr (Or.inl rfl), rfl, by simp, rfl⟩
      · exact ⟨[], c :: cs, Or.inl rfl, rfl, by simp [hminus], by simp [hminus, hplus]⟩

/-- A numeral is all that is read. -/
theorem exists_of_scanInt {s rest : List Char} {v : ℕ} (h : scanInt s = some (v, rest)) :
    ∃ n : Numeral, s = n.text ++ rest ∧ NoDigit rest ∧ v = n.stored := by
  obtain ⟨sign, u, hsign, ht, hminus, hu⟩ := exists_sign (s.dropWhile isspace)
  simp only [scanInt, hu] at h
  split at h
  · cases h
  · rename_i hdigits
    obtain ⟨hv, rfl⟩ := Prod.mk.inj (Option.some.inj h)
    refine ⟨⟨s.takeWhile isspace, sign, u.takeWhile Char.isDigit,
      fun c hc => List.mem_takeWhile_imp hc, hsign, hdigits,
      fun c hc => List.mem_takeWhile_imp hc⟩, ?_, noDigit_dropWhile u, ?_⟩
    · rw [text, List.append_assoc, List.append_assoc, List.takeWhile_append_dropWhile, ← ht,
        List.takeWhile_append_dropWhile]
    · rw [← hv]
      simp only [stored, value, hminus]

/-- The longest numeral at the start of a text. -/
theorem text_inj {m n : Numeral} {r r' : List Char} (hr : NoDigit r) (hr' : NoDigit r')
    (h : m.text ++ r = n.text ++ r') : m.text = n.text ∧ m.stored = n.stored ∧ r = r' := by
  have hscan := m.scanInt_text hr
  rw [h, n.scanInt_text hr', Option.some.injEq, Prod.mk.injEq] at hscan
  obtain ⟨hstored, rfl⟩ := hscan
  exact ⟨List.append_cancel_right h, hstored.symm, rfl⟩

end Numeral

/-! ### What is accepted -/

/-- Four numbers with dots between them, and what follows. -/
def quadText (a b c d rest : List Char) : List Char :=
  a ++ '.' :: (b ++ '.' :: (c ++ '.' :: (d ++ rest)))

/-- Four numerals. -/
structure Quad where
  /-- The first numeral. -/
  a : Numeral
  /-- The second numeral. -/
  b : Numeral
  /-- The third numeral. -/
  c : Numeral
  /-- The fourth numeral. -/
  d : Numeral

namespace Quad

/-- The text of four numerals with dots between them, and what follows. -/
def text (q : Quad) (rest : List Char) : List Char :=
  quadText q.a.text q.b.text q.c.text q.d.text rest

/-- The numbers are in the range of a byte. -/
def InRange (q : Quad) : Prop :=
  q.a.stored < 256 ∧ q.b.stored < 256 ∧ q.c.stored < 256 ∧ q.d.stored < 256

/-- The address. -/
def addr (q : Quad) : Ipv4Addr := ipv4 q.a.stored q.b.stored q.c.stored q.d.stored

/-- The four numerals at the start of a text, as they are read. -/
lemma text_inj {q q' : Quad} {r r' : List Char} (hr : NoDigit r) (hr' : NoDigit r')
    (h : q.text r = q'.text r') : q.a.text = q'.a.text ∧ q.b.text = q'.b.text ∧
      q.c.text = q'.c.text ∧ q.d.text = q'.d.text ∧ r = r' := by
  have hdot : ∀ s, NoDigit ('.' :: s) := noDigit_cons (by decide)
  obtain ⟨ha, -, h⟩ := Numeral.text_inj (hdot _) (hdot _) h
  obtain ⟨hb, -, h⟩ := Numeral.text_inj (hdot _) (hdot _) (List.cons.inj h).2
  obtain ⟨hc, -, h⟩ := Numeral.text_inj (hdot _) (hdot _) (List.cons.inj h).2
  obtain ⟨hd, -, h⟩ := Numeral.text_inj hr hr' (List.cons.inj h).2
  exact ⟨ha, hb, hc, hd, h⟩

end Quad

/-- Scanning a numeral and a separator. -/
lemma sscanf_separator (n : Numeral) {sep : Char} (hsep : sep.isDigit = false)
    (format : List Directive) (rest : List Char) :
    sscanf (.d :: .lit sep :: format) (n.text ++ sep :: rest) = n.stored :: sscanf format rest := by
  rw [sscanf, n.scanInt_text (noDigit_cons hsep rest)]
  simp only [sscanf, List.head?_cons, List.tail_cons, if_true]

/-- Two conversions need a separator between them. -/
lemma exists_separator {sep : Char} {format : List Directive} {s : List Char}
    (h : 1 < (sscanf (.d :: .lit sep :: format) s).length) :
    ∃ (n : Numeral) (rest : List Char), s = n.text ++ sep :: rest := by
  rw [sscanf] at h
  cases hscan : scanInt s with
  | none => simp [hscan] at h
  | some r =>
    obtain ⟨n, rfl, -, -⟩ := Numeral.exists_of_scanInt hscan
    refine ⟨n, r.2.tail, ?_⟩
    simp only [hscan, sscanf] at h
    split at h
    · rename_i hhead
      rw [List.append_cancel_left_eq]
      exact (List.cons_head?_tail hhead).symm
    · simp at h

/-- A suffix with a slash and a numeral. -/
def Suffixed (rest : List Char) : Prop :=
  ∃ (e : Numeral) (r : List Char), NoDigit r ∧ rest = '/' :: (e.text ++ r)

/-- Scanning four numerals. -/
lemma sscanf_quad (q : Quad) {rest : List Char} (hrest : NoDigit rest) :
    sscanf addrFormat (q.text rest) = q.a.stored :: q.b.stored :: q.c.stored :: q.d.stored ::
      sscanf [.lit '/', .d, .c] rest := by
  rw [addrFormat, Quad.text, quadText, sscanf_separator _ (by decide),
    sscanf_separator _ (by decide), sscanf_separator _ (by decide), sscanf,
    q.d.scanInt_text hrest]

/-- Four conversions need four numerals. -/
lemma exists_quad {s : List Char} (h : 4 ≤ (sscanf addrFormat s).length) :
    ∃ (q : Quad) (rest : List Char), NoDigit rest ∧ s = q.text rest := by
  rw [addrFormat] at h
  obtain ⟨a, s, rfl⟩ := exists_separator (lt_of_lt_of_le (by decide) h)
  rw [sscanf_separator _ (by decide), List.length_cons, Nat.succ_le_succ_iff] at h
  obtain ⟨b, s, rfl⟩ := exists_separator (lt_of_lt_of_le (by decide) h)
  rw [sscanf_separator _ (by decide), List.length_cons, Nat.succ_le_succ_iff] at h
  obtain ⟨c, s, rfl⟩ := exists_separator (lt_of_lt_of_le (by decide) h)
  rw [sscanf_separator _ (by decide), List.length_cons, Nat.succ_le_succ_iff, sscanf] at h
  cases hscan : scanInt s with
  | none => simp [hscan] at h
  | some r =>
    obtain ⟨d, hd, hrest, -⟩ := Numeral.exists_of_scanInt hscan
    exact ⟨⟨a, b, c, d⟩, r.2, hrest, by rw [hd]; rfl⟩

/-- Scanning a suffix. -/
lemma sscanf_slash (e : Numeral) {r : List Char} (hr : NoDigit r) :
    sscanf [.lit '/', .d, .c] ('/' :: (e.text ++ r)) =
      e.stored :: (r.head?.map Char.toNat).toList := by
  rw [sscanf, List.head?_cons, if_pos rfl, List.tail_cons, sscanf, e.scanInt_text hr]
  cases r <;> rfl

/-- Without a suffix nothing more is converted. -/
lemma sscanf_of_not_suffixed {rest : List Char} (h : ¬Suffixed rest) :
    sscanf [.lit '/', .d, .c] rest = [] := by
  rw [sscanf]
  split
  · rename_i hhead
    rw [sscanf]
    cases hscan : scanInt rest.tail with
    | none => rfl
    | some r =>
      obtain ⟨e, he, hr, -⟩ := Numeral.exists_of_scanInt hscan
      exact absurd ⟨e, r.2, hr, by rw [← he]; exact (List.cons_head?_tail hhead).symm⟩ h
  · rfl

/-- The suffixes that are accepted, with their netmasks: anything but a slash and a numeral, or just
that. -/
inductive SuffixMask : List Char → Ipv4Addr → Prop where
  /-- A host. -/
  | host {rest : List Char} (h : ¬Suffixed rest) : SuffixMask rest (-1#32)
  /-- A network. -/
  | network (e : Numeral) (he : e.stored ≤ 32) : SuffixMask ('/' :: e.text) (netmask e.stored)

/-- Four conversions give the address of a host. -/
lemma readIpNetworkAddr_of_four {s : List Char} {a b c d : ℕ}
    (h : sscanf addrFormat (cStr s) = [a, b, c, d]) (net mask : Ipv4Addr) :
    readIpNetworkAddr s = .ok (net, mask) ↔
      (a < 256 ∧ b < 256 ∧ c < 256 ∧ d < 256) ∧ net = ipv4 a b c d ∧ mask = -1#32 := by
  rw [readIpNetworkAddr, h]
  simp only [Bool.and_eq_true, decide_eq_true_eq, and_assoc]
  split
  · rename_i hrange
    simp [hrange, eq_comm]
  · rename_i hrange
    simp only [reduceCtorEq, false_iff]
    exact fun hok => hrange ⟨hok.1, hok.2.1, hok.2.2.1, hok.2.2.2.1⟩

/-- Five conversions give the address of a network. -/
lemma readIpNetworkAddr_of_five {s : List Char} {a b c d e : ℕ}
    (h : sscanf addrFormat (cStr s) = [a, b, c, d, e]) (net mask : Ipv4Addr) :
    readIpNetworkAddr s = .ok (net, mask) ↔ (a < 256 ∧ b < 256 ∧ c < 256 ∧ d < 256) ∧ e ≤ 32 ∧
      net = ipv4 a b c d ∧ mask = netmask e := by
  rw [readIpNetworkAddr, h]
  simp only [Bool.and_eq_true, decide_eq_true_eq, and_assoc]
  split
  · rename_i hrange
    simp [hrange, eq_comm]
  · rename_i hrange
    simp only [reduceCtorEq, false_iff]
    exact fun hok => hrange ⟨hok.1, hok.2.1, hok.2.2.1, hok.2.2.2.1, hok.2.2.2.2.1⟩

/-- Another number of conversions is not accepted. -/
lemma length_of_readIpNetworkAddr {s : List Char} {r : Ipv4Addr × Ipv4Addr}
    (h : readIpNetworkAddr s = .ok r) :
    (sscanf addrFormat (cStr s)).length = 4 ∨ (sscanf addrFormat (cStr s)).length = 5 := by
  unfold readIpNetworkAddr at h
  dsimp only at h
  split at h
  · rename_i heq
    exact Or.inl (by rw [heq]; rfl)
  · rename_i heq
    exact Or.inr (by rw [heq]; rfl)
  · cases h

/-- **What is accepted.** -/
theorem readIpNetworkAddr_eq_ok_iff {s : List Char} {net mask : Ipv4Addr} :
    readIpNetworkAddr s = .ok (net, mask) ↔ ∃ (q : Quad) (rest : List Char), NoDigit rest ∧
      cStr s = q.text rest ∧ q.InRange ∧ net = q.addr ∧ SuffixMask rest mask := by
  constructor
  · intro h
    have hlen := length_of_readIpNetworkAddr h
    have hfour : 4 ≤ (sscanf addrFormat (cStr s)).length := by omega
    obtain ⟨q, rest, hrest, hs⟩ := exists_quad hfour
    refine ⟨q, rest, hrest, hs, ?_⟩
    have hscan := sscanf_quad q hrest
    rw [← hs] at hscan
    by_cases hsuffix : Suffixed rest
    · obtain ⟨e, r, hr, rfl⟩ := hsuffix
      rw [sscanf_slash e hr] at hscan
      cases r with
      | nil =>
        obtain ⟨hrange, he, hnet, rfl⟩ := (readIpNetworkAddr_of_five hscan net mask).mp h
        exact ⟨hrange, hnet, by rw [List.append_nil]; exact .network e he⟩
      | cons c r =>
        -- something is left behind the suffix
        rw [hscan] at hlen
        simp at hlen
    · rw [sscanf_of_not_suffixed hsuffix] at hscan
      obtain ⟨hrange, hnet, rfl⟩ := (readIpNetworkAddr_of_four hscan net mask).mp h
      exact ⟨hrange, hnet, .host hsuffix⟩
  · rintro ⟨q, rest, hrest, hs, hrange, rfl, hmask⟩
    have hscan := sscanf_quad q hrest
    rw [← hs] at hscan
    cases hmask with
    | host hsuffix =>
      rw [sscanf_of_not_suffixed hsuffix] at hscan
      exact (readIpNetworkAddr_of_four hscan _ _).mpr ⟨hrange, rfl, rfl⟩
    | network e he =>
      have hslash := sscanf_slash e noDigit_nil
      rw [List.append_nil] at hslash
      rw [hslash] at hscan
      exact (readIpNetworkAddr_of_five hscan _ _).mpr ⟨hrange, he, rfl, rfl⟩

/-! ### The grammar -/

/-- A decimal number below a bound. -/
structure Decimal (bound : ℕ) where
  /-- The digits. -/
  digits : List Char
  /-- There is a digit. -/
  digits_ne_nil : digits ≠ []
  /-- There is nothing but digits. -/
  isDigit_digits : ∀ c ∈ digits, c.isDigit = true
  /-- The number is below the bound. -/
  value_lt : Nat.ofDigitChars 10 digits 0 < bound

namespace Decimal

variable {bound : ℕ} (n : Decimal bound)

/-- The number that the digits write. -/
def value : ℕ := Nat.ofDigitChars 10 n.digits 0

/-- A decimal number is a numeral. -/
def numeral : Numeral where
  spaces := []
  sign := []
  digits := n.digits
  isspace_spaces := fun _ hc => absurd hc List.not_mem_nil
  sign_cases := Or.inl rfl
  digits_ne_nil := n.digits_ne_nil
  isDigit_digits := n.isDigit_digits

/-- The text of a decimal number is its digits. -/
@[simp] lemma text_numeral : n.numeral.text = n.digits := rfl

/-- A decimal number that fits into an `unsigned int` is stored. -/
lemma stored_numeral (hbound : bound ≤ 2 ^ 32) : n.numeral.stored = n.value := by
  have hlt : n.value < bound := n.value_lt
  have hvalue : n.numeral.value = n.value := rfl
  have hsign : ¬n.numeral.sign = ['-'] := by
    intro h
    cases h
  rw [Numeral.stored, if_neg hsign, hvalue, min_eq_left (by omega), u32_natCast (by omega)]

end Decimal

/-- The grammar of addresses, with the network number and the netmask. -/
inductive AddressGrammar : List Char → Ipv4Addr → Ipv4Addr → Prop where
  /-- `a.b.c.d`. -/
  | host (a b c d : Decimal 256) {net mask : Ipv4Addr}
      (hnet : net.toNat = a.value * 2 ^ 24 + b.value * 2 ^ 16 + c.value * 2 ^ 8 + d.value)
      (hmask : ∀ i < 32, mask.getLsbD i = true) :
      AddressGrammar (quadText a.digits b.digits c.digits d.digits []) net mask
  /-- `a.b.c.d/e`. -/
  | network (a b c d : Decimal 256) (e : Decimal 33) {net mask : Ipv4Addr}
      (hnet : net.toNat = a.value * 2 ^ 24 + b.value * 2 ^ 16 + c.value * 2 ^ 8 + d.value)
      (hmask : ∀ i < 32, mask.getLsbD i = decide (32 - e.value ≤ i)) :
      AddressGrammar (quadText a.digits b.digits c.digits d.digits ('/' :: e.digits)) net mask

/-- A text is read as the grammar says: it is accepted exactly when it is an address, with its
network number and its netmask, and it is accepted as the address of a host exactly when the netmask
is all ones. -/
structure ReadsAddress (s : List Char) : Prop where
  /-- `read_ip_network_addr`. -/
  network : ∀ net mask, readIpNetworkAddr s = .ok (net, mask) ↔ AddressGrammar s net mask
  /-- `read_ip_addr`. -/
  host : ∀ ip, readIpAddr s = .ok ip ↔ readIpNetworkAddr s = .ok (ip, -1#32)

/-- A numeral is a decimal number that fits into an `unsigned int`. -/
def Numeral.Plain (n : Numeral) : Prop := n.spaces = [] ∧ n.sign = [] ∧ n.value < 2 ^ 32

/-- Four numerals are decimal numbers. -/
def Quad.Plain (q : Quad) : Prop := q.a.Plain ∧ q.b.Plain ∧ q.c.Plain ∧ q.d.Plain

/-- A suffix is empty, or a slash and a decimal number. -/
def PlainSuffix (rest : List Char) : Prop :=
  rest = [] ∨ ∃ e : Numeral, e.Plain ∧ rest = '/' :: e.text

/-- A text that is no address but looks like one up to its first null character: four numerals in
the range of a byte with dots between them, followed by no slash and numeral or just by that, where
a null character is in the text, white space or a sign is in front of some digits, a number does not
fit into an `unsigned int`, or something else than a slash and a number follows. -/
def LooselyWritten (s : List Char) : Prop :=
  ∃ (q : Quad) (rest : List Char), NoDigit rest ∧ cStr s = q.text rest ∧ q.InRange ∧
    (¬Suffixed rest ∨ ∃ e : Numeral, e.stored ≤ 32 ∧ rest = '/' :: e.text) ∧
    ('\x00' ∈ s ∨ ¬q.Plain ∨ ¬PlainSuffix rest)

/-! ### Addresses and netmasks -/

/-- The number of an address. -/
lemma toNat_ipv4 {a b c d : ℕ} (ha : a < 256) (hb : b < 256) (hc : c < 256) (hd : d < 256) :
    (ipv4 a b c d).toNat = ((a * 256 + b) * 256 + c) * 256 + d := by
  simp only [ipv4, BitVec.toNat_add, BitVec.toNat_shiftLeft, BitVec.toNat_ofNat,
    Nat.shiftLeft_eq]
  omega

/-- The number of an address, by its bytes. -/
lemma eq_ipv4_iff {a b c d : ℕ} (ha : a < 256) (hb : b < 256) (hc : c < 256) (hd : d < 256)
    (net : Ipv4Addr) :
    net = ipv4 a b c d ↔ net.toNat = a * 2 ^ 24 + b * 2 ^ 16 + c * 2 ^ 8 + d := by
  have hsum : ((a * 256 + b) * 256 + c) * 256 + d =
      a * 2 ^ 24 + b * 2 ^ 16 + c * 2 ^ 8 + d := by ring
  rw [← BitVec.toNat_inj, toNat_ipv4 ha hb hc hd, hsum]

/-- The bits of a netmask. -/
lemma getLsbD_netmask : ∀ e < 33, ∀ i < 32, (netmask e).getLsbD i = decide (32 - e ≤ i) := by
  decide +kernel

/-- The bits determine the netmask. -/
lemma eq_netmask_iff {e : ℕ} (he : e < 33) (mask : Ipv4Addr) :
    mask = netmask e ↔ ∀ i < 32, mask.getLsbD i = decide (32 - e ≤ i) := by
  constructor
  · rintro rfl i hi
    exact getLsbD_netmask e he i hi
  · intro h
    exact BitVec.eq_of_getLsbD_eq fun i hi => (h i hi).trans (getLsbD_netmask e he i hi).symm

/-- All bits are ones. -/
lemma eq_allOnes_iff (mask : Ipv4Addr) : mask = -1#32 ↔ ∀ i < 32, mask.getLsbD i = true := by
  have hones : (-1#32 : Ipv4Addr) = netmask 32 := by decide +kernel
  rw [hones, eq_netmask_iff (by decide)]
  simp

/-! ### Reading what the grammar says -/

/-- There is no suffix behind the end. -/
lemma not_suffixed_nil : ¬Suffixed [] := by
  rintro ⟨e, r, -, h⟩
  cases h

/-- The four numerals of an address. -/
def quadOf (a b c d : Decimal 256) : Quad := ⟨a.numeral, b.numeral, c.numeral, d.numeral⟩

/-- The characters of an address. -/
lemma mem_quadText {a b c d : Decimal 256} {rest : List Char} {ch : Char}
    (h : ch ∈ quadText a.digits b.digits c.digits d.digits rest) :
    ch.isDigit = true ∨ ch = '.' ∨ ch ∈ rest := by
  simp only [quadText, List.mem_append, List.mem_cons] at h
  rcases h with h | h | h | h | h | h | h | h
  · exact Or.inl (a.isDigit_digits _ h)
  · exact Or.inr (Or.inl h)
  · exact Or.inl (b.isDigit_digits _ h)
  · exact Or.inr (Or.inl h)
  · exact Or.inl (c.isDigit_digits _ h)
  · exact Or.inr (Or.inl h)
  · exact Or.inl (d.isDigit_digits _ h)
  · exact Or.inr (Or.inr h)

/-- The characters of an address. -/
lemma AddressGrammar.mem {s : List Char} {net mask : Ipv4Addr} (h : AddressGrammar s net mask)
    {ch : Char} (hch : ch ∈ s) : ch.isDigit = true ∨ ch = '.' ∨ ch = '/' := by
  cases h with
  | host a b c d =>
    rcases mem_quadText hch with hdigit | hdot | hrest
    · exact Or.inl hdigit
    · exact Or.inr (Or.inl hdot)
    · cases hrest
  | network a b c d e =>
    rcases mem_quadText hch with hdigit | hdot | hrest
    · exact Or.inl hdigit
    · exact Or.inr (Or.inl hdot)
    · rcases List.mem_cons.mp hrest with hslash | hdigit
      · exact Or.inr (Or.inr hslash)
      · exact Or.inl (e.isDigit_digits _ hdigit)

/-- A decimal number is written as such. -/
lemma Decimal.plain_numeral {bound : ℕ} (n : Decimal bound) (hbound : bound ≤ 2 ^ 32) :
    n.numeral.Plain := ⟨rfl, rfl, n.value_lt.trans_le hbound⟩

/-- Whether a numeral is written as a decimal number depends on its text. -/
lemma Numeral.Plain.of_text_eq {m n : Numeral} (hm : m.Plain) (h : m.text = n.text) : n.Plain := by
  obtain ⟨hspaces, hsign, hlt⟩ := hm
  have htext : m.digits = n.spaces ++ (n.sign ++ n.digits) := by
    rw [text, hspaces, hsign, List.nil_append, List.nil_append] at h
    exact h
  have hdigit : ∀ c ∈ n.spaces ++ (n.sign ++ n.digits), c.isDigit = true :=
    fun c hc => m.isDigit_digits c (htext ▸ hc)
  have hspaces' : n.spaces = [] := by
    rw [List.eq_nil_iff_forall_not_mem]
    intro c hc
    have hspace := n.isspace_spaces c hc
    rw [isspace_of_isDigit (hdigit c (List.mem_append_left _ hc))] at hspace
    cases hspace
  have hsign' : n.sign = [] := by
    rcases n.sign_cases with hsign | hsign | hsign
    · exact hsign
    · exact absurd (hdigit '+' (by simp [hsign])) (by decide)
    · exact absurd (hdigit '-' (by simp [hsign])) (by decide)
  refine ⟨hspaces', hsign', ?_⟩
  rw [hspaces', hsign', List.nil_append, List.nil_append] at htext
  rwa [Numeral.value, ← htext]

/-- A numeral in range that is written as a decimal number is one. -/
lemma Numeral.Plain.exists_decimal {n : Numeral} (h : n.Plain) {bound : ℕ}
    (hlt : n.stored < bound) : ∃ m : Decimal bound, n.text = m.digits ∧ n.stored = m.value := by
  obtain ⟨hspaces, hsign, hvalue⟩ := h
  have hstored : n.stored = n.value := by
    have hminus : ¬n.sign = ['-'] := by
      intro h
      rw [hsign] at h
      cases h
    rw [stored, if_neg hminus, min_eq_left (by omega), u32_natCast hvalue]
  have hvalue_lt : n.value < bound := hstored ▸ hlt
  refine ⟨⟨n.digits, n.digits_ne_nil, n.isDigit_digits, hvalue_lt⟩, ?_, hstored⟩
  rw [text, hspaces, hsign, List.nil_append, List.nil_append]

/-- What an address looks like: no null character, and four decimal numbers that are in range. -/
structure Written (s : List Char) (q : Quad) (rest : List Char) : Prop where
  /-- No digit is left behind the numbers. -/
  noDigit : NoDigit rest
  /-- The text. -/
  text : s = q.text rest
  /-- There is no null character. -/
  no_null : '\x00' ∉ s
  /-- The numbers are in range. -/
  inRange : q.InRange
  /-- The numbers are written as such. -/
  plain : q.Plain
  /-- So is the suffix. -/
  suffix : PlainSuffix rest

/-- Decimal numbers are written as such. -/
lemma written_quadOf {a b c d : Decimal 256} {rest : List Char} (hrest : NoDigit rest)
    (hnull : '\x00' ∉ quadText a.digits b.digits c.digits d.digits rest)
    (hsuffix : PlainSuffix rest) :
    Written (quadText a.digits b.digits c.digits d.digits rest) (quadOf a b c d) rest := by
  have hlt : ∀ n : Decimal 256, n.numeral.stored < 256 := by
    intro n
    rw [n.stored_numeral (by decide)]
    exact n.value_lt
  have hplain : ∀ n : Decimal 256, n.numeral.Plain := fun n => n.plain_numeral (by decide)
  exact ⟨hrest, rfl, hnull, ⟨hlt a, hlt b, hlt c, hlt d⟩,
    ⟨hplain a, hplain b, hplain c, hplain d⟩, hsuffix⟩

/-- The number of an address of decimal numbers. -/
lemma eq_addr_quadOf_iff (a b c d : Decimal 256) (net : Ipv4Addr) :
    net = (quadOf a b c d).addr ↔
      net.toNat = a.value * 2 ^ 24 + b.value * 2 ^ 16 + c.value * 2 ^ 8 + d.value := by
  simp only [Quad.addr, quadOf, Decimal.stored_numeral _ (show 256 ≤ 2 ^ 32 by decide)]
  exact eq_ipv4_iff a.value_lt b.value_lt c.value_lt d.value_lt net

/-- **The grammar in terms of what is read.** -/
theorem addressGrammar_iff {s : List Char} {net mask : Ipv4Addr} :
    AddressGrammar s net mask ↔ ∃ (q : Quad) (rest : List Char), Written s q rest ∧
      net = q.addr ∧ SuffixMask rest mask := by
  constructor
  · intro h
    have hnull : '\x00' ∉ s := fun hmem => by
      rcases h.mem hmem with h | h | h
      · exact absurd h (by decide)
      · exact absurd h (by decide)
      · exact absurd h (by decide)
    cases h with
    | host a b c d hnet hmask =>
      refine ⟨quadOf a b c d, [], written_quadOf noDigit_nil hnull (Or.inl rfl),
        (eq_addr_quadOf_iff a b c d net).mpr hnet, ?_⟩
      rw [(eq_allOnes_iff mask).mpr hmask]
      exact .host not_suffixed_nil
    | network a b c d e hnet hmask =>
      have hplain : e.numeral.Plain := e.plain_numeral (by decide)
      have hvalue : e.numeral.stored = e.value := e.stored_numeral (by decide)
      refine ⟨quadOf a b c d, '/' :: e.numeral.text, written_quadOf
        (noDigit_cons (by decide) _) hnull (Or.inr ⟨e.numeral, hplain, rfl⟩),
        (eq_addr_quadOf_iff a b c d net).mpr hnet, ?_⟩
      rw [(eq_netmask_iff (e := e.value) e.value_lt mask).mpr hmask, ← hvalue]
      exact .network e.numeral (by rw [hvalue]; exact Nat.lt_succ_iff.mp e.value_lt)
  · rintro ⟨q, rest, hw, hnet, hmask⟩
    obtain ⟨-, rfl, -, hrange, hplain, hsuffix⟩ := hw
    obtain ⟨a, ha, hva⟩ := hplain.1.exists_decimal hrange.1
    obtain ⟨b, hb, hvb⟩ := hplain.2.1.exists_decimal hrange.2.1
    obtain ⟨c, hc, hvc⟩ := hplain.2.2.1.exists_decimal hrange.2.2.1
    obtain ⟨d, hd, hvd⟩ := hplain.2.2.2.exists_decimal hrange.2.2.2
    rw [Quad.addr, eq_ipv4_iff hrange.1 hrange.2.1 hrange.2.2.1 hrange.2.2.2, hva, hvb, hvc,
      hvd] at hnet
    rw [Quad.text, ha, hb, hc, hd]
    generalize hr : rest = r at hmask
    cases hmask with
    | host hnot =>
      subst hr
      rcases hsuffix with hnil | ⟨e, -, he⟩
      · rw [hnil]
        exact .host a b c d hnet ((eq_allOnes_iff _).mp rfl)
      · exact absurd ⟨e, [], noDigit_nil, by rw [he, List.append_nil]⟩ hnot
    | network e' he' =>
      rcases hsuffix with hnil | ⟨e, hplain, he⟩
      · rw [hnil] at hr
        cases hr
      · have htext : e.text ++ [] = e'.text ++ [] := by
          rw [he, List.cons.injEq] at hr
          rw [hr.2]
        obtain ⟨-, hstored, -⟩ := Numeral.text_inj noDigit_nil noDigit_nil htext
        obtain ⟨n, hn, hvn⟩ := hplain.exists_decimal (show e.stored < 33 by omega)
        rw [← hr, he, hn]
        refine .network a b c d n hnet ((eq_netmask_iff (e := n.value) n.value_lt _).mp ?_)
        rw [← hvn, hstored]

/-- **When an address is read as the grammar says.** -/
theorem readsAddress_iff (s : List Char) : ReadsAddress s ↔ ¬LooselyWritten s := by
  constructor
  · rintro h ⟨q, rest, hrest, hs, hrange, hsuffix, hloose⟩
    obtain ⟨mask, hmask⟩ : ∃ mask, SuffixMask rest mask := by
      rcases hsuffix with hnot | ⟨e, he, rfl⟩
      · exact ⟨_, .host hnot⟩
      · exact ⟨_, .network e he⟩
    have haccept := readIpNetworkAddr_eq_ok_iff.mpr ⟨q, rest, hrest, hs, hrange, rfl, hmask⟩
    obtain ⟨q', rest', hw, -⟩ := addressGrammar_iff.mp ((h.network _ _).mp haccept)
    rw [cStr_eq_self_iff.mpr hw.no_null, hw.text] at hs
    -- the text is read in one way only
    obtain ⟨ha, hb, hc, hd, rfl⟩ := Quad.text_inj hw.noDigit hrest hs
    obtain ⟨pa, pb, pc, pd⟩ := hw.plain
    rcases hloose with hnull | hplain | hplain
    · exact hw.no_null hnull
    · exact hplain ⟨pa.of_text_eq ha, pb.of_text_eq hb, pc.of_text_eq hc, pd.of_text_eq hd⟩
    · exact hplain hw.suffix
  · intro h
    refine ⟨fun net mask => ?_, fun ip => ?_⟩
    · rw [readIpNetworkAddr_eq_ok_iff, addressGrammar_iff]
      constructor
      · rintro ⟨q, rest, hrest, hs, hrange, hnet, hmask⟩
        have hsuffix : ¬Suffixed rest ∨ ∃ e : Numeral, e.stored ≤ 32 ∧ rest = '/' :: e.text := by
          cases hmask with
          | host hnot => exact Or.inl hnot
          | network e he => exact Or.inr ⟨e, he, rfl⟩
        have hstrict : ¬('\x00' ∈ s ∨ ¬q.Plain ∨ ¬PlainSuffix rest) :=
          fun hloose => h ⟨q, rest, hrest, hs, hrange, hsuffix, hloose⟩
        rw [not_or, not_or, not_not, not_not] at hstrict
        obtain ⟨hnull, hplain, hplain'⟩ := hstrict
        rw [cStr_eq_self_iff.mpr hnull] at hs
        exact ⟨q, rest, ⟨hrest, hs, hnull, hrange, hplain, hplain'⟩, hnet, hmask⟩
      · rintro ⟨q, rest, hw, hnet, hmask⟩
        have hcut := cStr_eq_self_iff.mpr hw.no_null
        exact ⟨q, rest, hw.noDigit, by rw [hcut]; exact hw.text, hw.inRange,
          hnet, hmask⟩
    · rw [readIpAddr]
      split
      · rename_i hread
        rw [hread]
        simp
      · rename_i host mask hread
        rw [hread, Except.ok.injEq, Prod.mk.injEq]
        split
        · rename_i hmask
          rw [Except.ok.injEq, and_iff_left hmask]
        · rename_i hmask
          simp only [reduceCtorEq, false_iff, not_and]
          exact fun _ => hmask

/-- **Trailing text is accepted**: `1.2.3.4xyz` is read as an address. -/
theorem not_readsAddress : ¬∀ s, ReadsAddress s := by
  intro h
  have haccept : readIpNetworkAddr ['1', '.', '2', '.', '3', '.', '4', 'x', 'y', 'z'] =
      .ok (ipv4 1 2 3 4, -1#32) := rfl
  have hmem : 'x' ∈ ['1', '.', '2', '.', '3', '.', '4', 'x', 'y', 'z'] := by simp
  rcases (((h _).network _ _).mp haccept).mem hmem with h | h | h
  · exact absurd h (by decide)
  · exact absurd h (by decide)
  · exact absurd h (by decide)

/-! ### Reading back addresses -/

/-- Numbers with dots between them. -/
def dotted (ns : List ℕ) : List Char :=
  List.intercalate ['.'] (ns.map fun n : ℕ => formatLong (n : ℤ))

/-- The text of an address. -/
lemma dotted_eq (a b c d : ℕ) : dotted [a, b, c, d] =
    formatLong a ++ '.' :: (formatLong b ++ '.' :: (formatLong c ++ '.' :: formatLong d)) := by
  simp only [dotted, List.map_cons, List.map_nil, List.intercalate_cons_cons,
    List.intercalate_singleton, List.append_assoc, List.singleton_append]

/-- A printed number is a decimal number. -/
def Decimal.ofNat {bound n : ℕ} (h : n < bound) : Decimal bound where
  digits := formatLong n
  digits_ne_nil := (word_formatLong (n : ℤ)).ne_nil
  isDigit_digits := fun _ => isDigit_formatLong
  value_lt := by
    rw [formatLong_natCast, Nat.ofDigitChars_ten_toDigits]
    exact h

/-- A printed number is printed. -/
lemma Decimal.value_ofNat {bound n : ℕ} (h : n < bound) : (Decimal.ofNat h).value = n := by
  change Nat.ofDigitChars 10 (formatLong n) 0 = n
  rw [formatLong_natCast, Nat.ofDigitChars_ten_toDigits]

/-- What the grammar says is read. -/
lemma readIpNetworkAddr_of_grammar {s : List Char} {net mask : Ipv4Addr}
    (h : AddressGrammar s net mask) : readIpNetworkAddr s = .ok (net, mask) := by
  obtain ⟨q, rest, hw, hnet, hmask⟩ := addressGrammar_iff.mp h
  exact readIpNetworkAddr_eq_ok_iff.mpr ⟨q, rest, hw.noDigit,
    by rw [cStr_eq_self_iff.mpr hw.no_null]; exact hw.text, hw.inRange, hnet, hmask⟩

/-- **Reading back the address of a host.** -/
theorem readIpNetworkAddr_dotted {a b c d : ℕ} (ha : a < 256) (hb : b < 256) (hc : c < 256)
    (hd : d < 256) : readIpNetworkAddr (dotted [a, b, c, d]) = .ok (ipv4 a b c d, -1#32) := by
  have htext : dotted [a, b, c, d] = quadText (Decimal.ofNat ha).digits (Decimal.ofNat hb).digits
      (Decimal.ofNat hc).digits (Decimal.ofNat hd).digits [] := by
    rw [dotted_eq, quadText, List.append_nil]
    rfl
  rw [htext]
  refine readIpNetworkAddr_of_grammar (.host _ _ _ _ ?_ ((eq_allOnes_iff _).mp rfl))
  simp only [Decimal.value_ofNat]
  exact (eq_ipv4_iff ha hb hc hd _).mp rfl

/-- **Reading back the address of a network.** -/
theorem readIpNetworkAddr_dotted_slash {a b c d e : ℕ} (ha : a < 256) (hb : b < 256) (hc : c < 256)
    (hd : d < 256) (he : e ≤ 32) :
    readIpNetworkAddr (dotted [a, b, c, d] ++ '/' :: formatLong e) =
      .ok (ipv4 a b c d, netmask e) := by
  have he' : e < 33 := Nat.lt_succ_iff.mpr he
  have htext : dotted [a, b, c, d] ++ '/' :: formatLong e = quadText (Decimal.ofNat ha).digits
      (Decimal.ofNat hb).digits (Decimal.ofNat hc).digits (Decimal.ofNat hd).digits
      ('/' :: (Decimal.ofNat he').digits) := by
    simp only [dotted_eq, quadText, List.append_assoc, List.cons_append]
    rfl
  rw [htext]
  refine readIpNetworkAddr_of_grammar (.network _ _ _ _ _ ?_ ((eq_netmask_iff ?_ _).mp ?_))
  · simp only [Decimal.value_ofNat]
    exact (eq_ipv4_iff ha hb hc hd _).mp rfl
  · exact (Decimal.ofNat he').value_lt
  · rw [Decimal.value_ofNat]

/-- Reading back the address of a host where one is expected. -/
theorem readIpAddr_dotted {a b c d : ℕ} (ha : a < 256) (hb : b < 256) (hc : c < 256)
    (hd : d < 256) : readIpAddr (dotted [a, b, c, d]) = .ok (ipv4 a b c d) := by
  rw [readIpAddr, readIpNetworkAddr_dotted ha hb hc hd]
  simp

/-- Numbers and the characters between them make a word. -/
lemma word_of_digits {w : List Char} (hne : w ≠ [])
    (hw : ∀ c ∈ w, c.isDigit = true ∨ c = '.' ∨ c = '/') : Word w := by
  refine ⟨hne, fun c hc => ?_⟩
  rcases hw c hc with hdigit | rfl | rfl
  · exact isSpace_of_isDigit hdigit
  · decide
  · decide

/-- The characters of an address. -/
lemma isDigit_dotted {a b c d : ℕ} {ch : Char} (hch : ch ∈ dotted [a, b, c, d]) :
    ch.isDigit = true ∨ ch = '.' := by
  simp only [dotted_eq, List.mem_append, List.mem_cons] at hch
  rcases hch with h | rfl | h | rfl | h | rfl | h
  all_goals first | exact Or.inr rfl | exact Or.inl (isDigit_formatLong h)

/-- The address of a host is a word. -/
lemma word_dotted (a b c d : ℕ) : Word (dotted [a, b, c, d]) := by
  refine word_of_digits ?_ fun ch hch => (isDigit_dotted hch).imp_right Or.inl
  rw [dotted_eq]
  exact List.append_ne_nil_of_right_ne_nil _ (List.cons_ne_nil _ _)

/-- The address of a network is a word. -/
lemma word_dotted_slash (a b c d e : ℕ) : Word (dotted [a, b, c, d] ++ '/' :: formatLong e) := by
  refine word_of_digits (List.append_ne_nil_of_right_ne_nil _ (List.cons_ne_nil _ _))
    fun ch hch => ?_
  rcases List.mem_append.mp hch with h | h
  · exact (isDigit_dotted h).imp_right Or.inl
  · rcases List.mem_cons.mp h with rfl | h
    · exact Or.inr (Or.inr rfl)
    · exact Or.inl (isDigit_formatLong h)

end MeshSim
