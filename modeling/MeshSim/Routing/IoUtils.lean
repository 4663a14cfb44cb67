import MeshSim.Foundation.MachineInt
import MeshSim.Foundation.PythonText

/-!
# Reading configuration files

`sim/io_utils.cc`: the lines of a configuration file, their fields, and the IP addresses in them.
`getlines_flatMap` reads back the lines of a file, and `tokenize_intercalate` the fields of a line.

The white space of the "C" locale is that of `isspace`; `sscanf` is modelled for the directives that
the code uses.
-/

namespace MeshSim

open MachineInt PythonText

/-! ### Lines -/

/-- `isspace`. -/
def isspace (c : Char) : Bool := c.toNat = 32 || (9 ≤ c.toNat && c.toNat ≤ 13)

/-- The lines that `getline` reads, where `line` is the part of the current one already read. -/
def getlines (line : List Char) : List Char → List (List Char)
  | [] => if line = [] then [] else [line]
  | c :: cs => if c = '\n' then line :: getlines [] cs else getlines (line ++ [c]) cs

/-- `trim`. -/
def trim (s : List Char) : List Char := (s.dropWhile isspace).rdropWhile isspace

/-- The lines that `getconfigline` finds, one after another. -/
def getconfiglines (stream : List Char) : List (List Char) :=
  ((getlines [] stream).map trim).filter fun line => line ≠ [] && line.head? ≠ some '#'

/-- `split` with `is_space` and `token_compress_on`, where `token` is the part of the current token
already read and `sep` says that a separator is in front of it. -/
def splitTokens (token : List Char) (sep : Bool) : List Char → List (List Char)
  | [] => [token]
  | c :: cs =>
    if isspace c then
      if sep then splitTokens token true cs else token :: splitTokens [] true cs
    else splitTokens (token ++ [c]) false cs

/-- `tokenize`. -/
def tokenize (line : List Char) : List (List Char) := splitTokens [] false line

/-- The lines that `getconfiglinetokenized` finds, one after another. -/
def getconfiglinesTokenized (stream : List Char) : List (List (List Char)) :=
  (getconfiglines stream).map tokenize

/-! ### Addresses -/

/-- A directive of the format of `sscanf`. -/
inductive Directive where
  /-- `%d`. -/
  | d
  /-- `%c`. -/
  | c
  /-- A character that is not white space. -/
  | lit (c : Char)

/-- The number that `%d` reads and stores in an `unsigned int`, with the rest of the text: it is
read as a `long`, with saturation. -/
def scanInt (s : List Char) : Option (ℕ × List Char) :=
  let t := s.dropWhile isspace
  let neg := t.head? = some '-'
  let u := if t.head? = some '-' ∨ t.head? = some '+' then t.tail else t
  let digits := u.takeWhile Char.isDigit
  if digits = [] then none
  else
    let n : ℤ := Nat.ofDigitChars 10 digits 0
    let num := if neg then max (-n) (-2 ^ 63) else min n (2 ^ 63 - 1)
    some (u32 num, u.dropWhile Char.isDigit)

/-- The values that `sscanf` assigns. -/
def sscanf : List Directive → List Char → List ℕ
  | [], _ => []
  | .d :: format, s =>
    match scanInt s with
    | some (n, rest) => n :: sscanf format rest
    | none => []
  | .c :: format, s =>
    match s with
    | c :: rest => c.toNat :: sscanf format rest
    | [] => []
  | .lit c :: format, s => if s.head? = some c then sscanf format s.tail else []

/-- `c_str`, as `sscanf` and `fprintf` read it: up to the first null character. -/
def cStr (s : List Char) : List Char := s.takeWhile fun c => c ≠ '\x00'

/-- Text is read completely exactly when it has no null character. -/
lemma cStr_eq_self_iff {s : List Char} : cStr s = s ↔ '\x00' ∉ s := by
  rw [cStr, List.takeWhile_eq_self_iff]
  refine ⟨fun h hnull => ?_, fun h c hc => ?_⟩
  · exact absurd (h _ hnull) (by decide)
  · exact decide_eq_true fun heq => h (heq ▸ hc)

/-- `"%d.%d.%d.%d/%d%c"` -/
def addrFormat : List Directive := [.d, .lit '.', .d, .lit '.', .d, .lit '.', .d, .lit '/', .d, .c]

/-- An IP address in host order. -/
abbrev Ipv4Addr := BitVec 32

/-- The address `a.b.c.d`. -/
def ipv4 (a b c d : ℕ) : Ipv4Addr :=
  (BitVec.ofNat 32 a <<< 24) + (BitVec.ofNat 32 b <<< 16) + (BitVec.ofNat 32 c <<< 8) +
    BitVec.ofNat 32 d

/-- The netmask for the suffix `/e`. -/
def netmask (e : ℕ) : Ipv4Addr := if e = 0 then 0 else ~~~((1#32 <<< (32 - e)) - 1#32)

/-- `read_ip_network_addr`: the network and the netmask. -/
def readIpNetworkAddr (addr : List Char) : Except String (Ipv4Addr × Ipv4Addr) :=
  let inrange (x : ℕ) : Bool := x < 256
  let cantParse := "Error:  Can't parse IP address \"" ++ String.ofList addr ++ "\"\n"
  match sscanf addrFormat (cStr addr) with
  | [a, b, c, d] =>
    if inrange a && inrange b && inrange c && inrange d then .ok (ipv4 a b c d, -1#32)
    else .error cantParse
  | [a, b, c, d, e] =>
    if inrange a && inrange b && inrange c && inrange d && e ≤ 32 then
      .ok (ipv4 a b c d, netmask e)
    else .error cantParse
  | _ => .error cantParse

/-- `read_ip_addr`. -/
def readIpAddr (addr : List Char) : Except String Ipv4Addr :=
  match readIpNetworkAddr addr with
  | .error e => .error e
  | .ok (host, mask) =>
    if mask = -1#32 then .ok host
    else .error ("Error:  Expected host address, but got network address: \"" ++
      String.ofList addr ++ "\"\n")

/-! ### Reading back lines -/

/-- What is no white space for Python is none for C++. -/
lemma isspace_of_not_isSpace {c : Char} (h : isSpace c = false) : isspace c = false := by
  simp only [isSpace, Bool.or_eq_false_iff, Bool.and_eq_false_iff, decide_eq_false_iff_not,
    beq_eq_false_iff_ne] at h
  simp only [isspace, Bool.or_eq_false_iff, Bool.and_eq_false_iff, decide_eq_false_iff_not]
  omega

/-- The characters of a word are no white space for C++ either. -/
lemma isspace_of_word {w : List Char} (hw : Word w) {c : Char} (hc : c ∈ w) :
    isspace c = false :=
  isspace_of_not_isSpace (hw.not_space c hc)

/-- **Reading back lines.** -/
theorem getlines_flatMap {ls : List (List Char)} (hls : ∀ l ∈ ls, '\n' ∉ l) :
    getlines [] (ls.flatMap fun l => l ++ ['\n']) = ls := by
  have hline : ∀ (l line rest : List Char), '\n' ∉ l →
      getlines line (l ++ ['\n'] ++ rest) = (line ++ l) :: getlines [] rest := by
    intro l
    induction l with
    | nil =>
      intro line rest _
      rw [List.nil_append, List.singleton_append, getlines, if_pos rfl, List.append_nil]
    | cons c cs ih =>
      intro line rest hl
      rw [List.mem_cons, not_or] at hl
      rw [List.cons_append, List.cons_append, getlines, if_neg (Ne.symm hl.1), ih _ _ hl.2,
        List.append_assoc]
      rfl
  induction ls with
  | nil => rfl
  | cons l ls ih =>
    obtain ⟨hl, hls⟩ := List.forall_mem_cons.mp hls
    rw [List.flatMap_cons, hline l [] _ hl, ih hls, List.nil_append]

/-- A text without white space at its ends is not changed by trimming. -/
lemma trim_eq_self {s : List Char} (hhead : ∀ c, s.head? = some c → isspace c = false)
    (hlast : ∀ c, s.getLast? = some c → isspace c = false) : trim s = s := by
  cases s with
  | nil => rfl
  | cons c cs =>
    have hc : ¬ isspace c = true := by
      rw [hhead c rfl]
      decide
    rw [trim, List.dropWhile_cons_of_neg hc, List.rdropWhile_eq_self_iff]
    intro hne hspace
    rw [hlast _ (List.getLast?_eq_some_getLast hne)] at hspace
    cases hspace

/-- The first character of a line is that of its first word. -/
lemma head_intercalate (sep : Char) {w : List Char} (hw : w ≠ []) (ws : List (List Char)) :
    (List.intercalate [sep] (w :: ws)).head? = w.head? := by
  cases ws with
  | nil => rw [List.intercalate_singleton]
  | cons w' ws =>
    rw [List.intercalate_cons_cons, List.append_assoc, List.head?_append_of_ne_nil _ hw]

/-- The last character of a line is none of the separators. -/
lemma getLast_intercalate (sep : Char) {ws : List (List Char)} (hws : ∀ w ∈ ws, Word w) {c : Char}
    (hc : (List.intercalate [sep] ws).getLast? = some c) : isspace c = false := by
  induction ws with
  | nil => cases hc
  | cons w ws ih =>
    obtain ⟨hw, hws⟩ := List.forall_mem_cons.mp hws
    cases ws with
    | nil =>
      rw [List.intercalate_singleton] at hc
      exact isspace_of_word hw (List.mem_of_mem_getLast? hc)
    | cons w' ws =>
      have hne : List.intercalate [sep] (w' :: ws) ≠ [] := by
        have hhead := head_intercalate sep (hws w' List.mem_cons_self).ne_nil ws
        intro hnil
        rw [hnil, List.head?_nil, eq_comm, List.head?_eq_none_iff] at hhead
        exact (hws w' List.mem_cons_self).ne_nil hhead
      rw [List.intercalate_cons_cons, List.getLast?_append_of_ne_nil _ hne] at hc
      exact ih hws hc

/-- A character of a line is a separator or in a word. -/
lemma mem_intercalate {sep c : Char} {ws : List (List Char)}
    (hc : c ∈ List.intercalate [sep] ws) : c = sep ∨ ∃ w ∈ ws, c ∈ w := by
  induction ws with
  | nil => cases hc
  | cons w ws ih =>
    cases ws with
    | nil =>
      rw [List.intercalate_singleton] at hc
      exact Or.inr ⟨w, List.mem_cons_self, hc⟩
    | cons w' ws =>
      rw [List.intercalate_cons_cons, List.append_assoc, List.mem_append, List.mem_append,
        List.mem_singleton] at hc
      rcases hc with hc | hc | hc
      · exact Or.inr ⟨w, List.mem_cons_self, hc⟩
      · exact Or.inl hc
      · obtain rfl | ⟨v, hv, hcv⟩ := ih hc
        · exact Or.inl rfl
        · exact Or.inr ⟨v, List.mem_cons_of_mem _ hv, hcv⟩

/-- The characters of a word join the current token. -/
lemma splitTokens_append {w : List Char} (hw : ∀ c ∈ w, isspace c = false) (hne : w ≠ [])
    (token : List Char) (sep : Bool) (rest : List Char) :
    splitTokens token sep (w ++ rest) = splitTokens (token ++ w) false rest := by
  induction w generalizing token sep with
  | nil => exact absurd rfl hne
  | cons c cs ih =>
    obtain ⟨hc, hcs⟩ := List.forall_mem_cons.mp hw
    rw [List.cons_append, splitTokens, if_neg (by rw [hc]; decide)]
    by_cases hnil : cs = []
    · subst hnil
      rfl
    · rw [ih hcs hnil, List.append_assoc]
      rfl

/-- **Reading back the fields of a line.** -/
theorem tokenize_intercalate {sep : Char} (hsep : isspace sep = true) {ws : List (List Char)}
    (hne : ws ≠ []) (hws : ∀ w ∈ ws, Word w) : tokenize (List.intercalate [sep] ws) = ws := by
  have hsplit : ∀ b, splitTokens [] b (List.intercalate [sep] ws) = ws := by
    induction ws with
    | nil => exact absurd rfl hne
    | cons w ws ih =>
      intro b
      obtain ⟨hw, hws⟩ := List.forall_mem_cons.mp hws
      have hspace : ∀ c ∈ w, isspace c = false := fun c => isspace_of_word hw
      cases ws with
      | nil =>
        have h := splitTokens_append hspace hw.ne_nil [] b []
        rw [List.append_nil, List.nil_append] at h
        rw [List.intercalate_singleton, h, splitTokens]
      | cons w' ws =>
        rw [List.intercalate_cons_cons, List.append_assoc,
          splitTokens_append hspace hw.ne_nil, List.nil_append, List.singleton_append, splitTokens,
          if_pos hsep, if_neg Bool.false_ne_true, ih (List.cons_ne_nil _ _) hws]
  exact hsplit false

end MeshSim
