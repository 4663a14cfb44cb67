import Mathlib

/-!
# Text files of integers

What C writes with `%ld` and what Python reads back: iterating over the lines of a text file
(`readLines`), splitting a line at white space (`split`), and converting a field to an integer
(`toInt`, on ASCII text).  The main results are the round trips: `readLines_flatMap_append` for
files, `split_join` for lines and `toInt_formatLong` for fields.
-/

namespace PythonText

/-! ### Integers -/

/-- A number as `%ld` prints it. -/
def formatLong (n : ℤ) : List Char :=
  if n < 0 then '-' :: Nat.toDigits 10 n.natAbs else Nat.toDigits 10 n.natAbs

/-- The rest of a number behind its first digit: single underscores may separate digits. -/
def toNatFrom (acc : ℕ) : List Char → Option ℕ
  | [] => some acc
  | '_' :: c :: cs =>
    if c.isDigit then toNatFrom (10 * acc + (c.toNat - '0'.toNat)) cs else none
  | c :: cs => if c.isDigit then toNatFrom (10 * acc + (c.toNat - '0'.toNat)) cs else none

/-- An unsigned number. -/
def toNat : List Char → Option ℕ
  | [] => none
  | c :: cs => if c.isDigit then toNatFrom (c.toNat - '0'.toNat) cs else none

/-- `int(s)` on a string without white space. -/
def toInt : List Char → Option ℤ
  | '-' :: cs => (toNat cs).map fun n : ℕ => -(n : ℤ)
  | '+' :: cs => (toNat cs).map fun n : ℕ => (n : ℤ)
  | cs => (toNat cs).map fun n : ℕ => (n : ℤ)

/-- A digit is none of the other characters in numbers. -/
lemma ne_of_isDigit {c d : Char} (hc : c.isDigit) (hd : d.isDigit = false) : c ≠ d := by
  rintro rfl
  rw [hd] at hc
  cases hc

/-- Reading digits. -/
lemma toNatFrom_digits (acc : ℕ) {cs : List Char} (hcs : ∀ c ∈ cs, c.isDigit) :
    toNatFrom acc cs = some (Nat.ofDigitChars 10 cs acc) := by
  induction cs generalizing acc with
  | nil => rfl
  | cons c cs ih =>
    obtain ⟨hc, hcs⟩ := List.forall_mem_cons.mp hcs
    have hne : c ≠ '_' := ne_of_isDigit hc (by decide)
    rw [toNatFrom, if_pos hc, ih _ hcs, Nat.ofDigitChars_cons]
    exact fun _ _ h => absurd h hne

/-- Reading back an unsigned number. -/
lemma toNat_toDigits (n : ℕ) : toNat (Nat.toDigits 10 n) = some n := by
  have hdigit : ∀ c ∈ Nat.toDigits 10 n, c.isDigit := fun c hc =>
    Nat.isDigit_of_mem_toDigits (by decide) (by decide) hc
  have hval : Nat.ofDigitChars 10 (Nat.toDigits 10 n) 0 = n := Nat.ofDigitChars_ten_toDigits
  cases hn : Nat.toDigits 10 n with
  | nil => exact absurd hn Nat.toDigits_ne_nil
  | cons c cs =>
    rw [hn] at hdigit hval
    obtain ⟨hc, hcs⟩ := List.forall_mem_cons.mp hdigit
    rw [toNat, if_pos hc, toNatFrom_digits _ hcs, ← hval, Nat.ofDigitChars_cons, Nat.mul_zero,
      Nat.zero_add]

/-- Reading digits, which may start with zeros. -/
lemma toInt_digits {cs : List Char} (hne : cs ≠ []) (hcs : ∀ c ∈ cs, c.isDigit) :
    toInt cs = some ((Nat.ofDigitChars 10 cs 0 : ℕ) : ℤ) := by
  cases cs with
  | nil => exact absurd rfl hne
  | cons c cs =>
    obtain ⟨hc, hrest⟩ := List.forall_mem_cons.mp hcs
    have hread : toNat (c :: cs) = some (Nat.ofDigitChars 10 (c :: cs) 0) := by
      rw [toNat, if_pos hc, toNatFrom_digits _ hrest, Nat.ofDigitChars_cons, Nat.mul_zero,
        Nat.zero_add]
    rw [toInt, hread, Option.map_some]
    · exact fun _ h => absurd (List.cons.inj h).1 (ne_of_isDigit hc (by decide))
    · exact fun _ h => absurd (List.cons.inj h).1 (ne_of_isDigit hc (by decide))

/-- **Reading back a number.** -/
theorem toInt_formatLong (n : ℤ) : toInt (formatLong n) = some n := by
  rw [formatLong]
  split
  · rename_i hneg
    rw [toInt, toNat_toDigits, Option.map_some, Int.ofNat_natAbs_of_nonpos hneg.le, neg_neg]
  · rename_i hnonneg
    have hdigit : ∀ c ∈ Nat.toDigits 10 n.natAbs, c.isDigit := fun c hc =>
      Nat.isDigit_of_mem_toDigits (by decide) (by decide) hc
    rw [toInt_digits Nat.toDigits_ne_nil hdigit, Nat.ofDigitChars_ten_toDigits,
      Int.natAbs_of_nonneg (not_lt.mp hnonneg)]

/-- A natural number is printed as its digits. -/
lemma formatLong_natCast (n : ℕ) : formatLong (n : ℤ) = Nat.toDigits 10 n := by
  rw [formatLong, if_neg (by omega), Int.natAbs_natCast]

/-- The printed digits of a number. -/
lemma isDigit_formatLong {n : ℕ} {c : Char} (hc : c ∈ formatLong (n : ℤ)) : c.isDigit = true := by
  rw [formatLong_natCast] at hc
  exact Nat.isDigit_of_mem_toDigits (by decide) (by decide) hc

/-- A number as `%0*ld` prints it: with zeros in front, up to a width. -/
def zeroPad (width n : ℕ) : List Char :=
  List.replicate (width - (formatLong n).length) '0' ++ formatLong n

/-- A number with zeros in front is written with digits. -/
lemma isDigit_of_mem_zeroPad {width n : ℕ} {c : Char} (hc : c ∈ zeroPad width n) : c.isDigit := by
  rcases List.mem_append.mp hc with hc | hc
  · rw [List.eq_of_mem_replicate hc]
    decide
  · exact isDigit_formatLong hc

/-- A number with zeros in front has some digit. -/
lemma zeroPad_ne_nil (width n : ℕ) : zeroPad width n ≠ [] := by
  refine List.append_ne_nil_of_right_ne_nil _ ?_
  rw [formatLong_natCast]
  exact Nat.toDigits_ne_nil

/-- The width of a number that fits into it. -/
lemma length_zeroPad {width n : ℕ} (hn : n < 10 ^ width) (hwidth : 0 < width) :
    (zeroPad width n).length = width := by
  have hdigits := Nat.toDigits_length 10 n width hwidth hn
  rw [zeroPad, formatLong_natCast, List.length_append, List.length_replicate]
  omega

/-- **Reading back a number with zeros in front.** -/
theorem toInt_zeroPad (width n : ℕ) : toInt (zeroPad width n) = some (n : ℤ) := by
  have hzeros : ∀ m, Nat.ofDigitChars 10 (List.replicate m '0' ++ Nat.toDigits 10 n) 0 = n := by
    intro m
    induction m with
    | zero => exact Nat.ofDigitChars_ten_toDigits
    | succ m ih =>
      rw [List.replicate_succ, List.cons_append, Nat.ofDigitChars_cons]
      exact ih
  rw [toInt_digits (zeroPad_ne_nil width n) fun c hc => isDigit_of_mem_zeroPad hc, zeroPad,
    formatLong_natCast, hzeros]

/-! ### Fields -/

/-- The characters that Python takes for white space. -/
def isSpace (c : Char) : Bool :=
  (9 ≤ c.toNat && c.toNat ≤ 13) || (28 ≤ c.toNat && c.toNat ≤ 32) || c.toNat == 0x85 ||
    c.toNat == 0xa0 || c.toNat == 0x1680 || (0x2000 ≤ c.toNat && c.toNat ≤ 0x200a) ||
    c.toNat == 0x2028 || c.toNat == 0x2029 || c.toNat == 0x202f || c.toNat == 0x205f ||
    c.toNat == 0x3000

/-- `s.strip()`. -/
def strip (s : List Char) : List Char := (s.dropWhile isSpace).rdropWhile isSpace

/-- The words of a text, where `word` is the part of the current one already read. -/
def splitFrom (word : List Char) : List Char → List (List Char)
  | [] => if word = [] then [] else [word]
  | c :: cs =>
    if isSpace c then
      if word = [] then splitFrom [] cs else word :: splitFrom [] cs
    else splitFrom (word ++ [c]) cs

/-- `s.split()`. -/
def split (s : List Char) : List (List Char) := splitFrom [] s

/-- A word: it is not empty and has no white space. -/
structure Word (w : List Char) : Prop where
  /-- The word is not empty. -/
  ne_nil : w ≠ []
  /-- The word has no white space. -/
  not_space : ∀ c ∈ w, isSpace c = false

/-- Digits are no white space. -/
lemma isSpace_of_isDigit {c : Char} (h : c.isDigit) : isSpace c = false := by
  have hle : 48 ≤ c.toNat ∧ c.toNat ≤ 57 := by
    simp only [Char.isDigit, Bool.and_eq_true, decide_eq_true_eq, ge_iff_le, UInt32.le_iff_toNat_le]
      at h
    exact h
  simp only [isSpace, Bool.or_eq_false_iff, Bool.and_eq_false_iff, decide_eq_false_iff_not,
    beq_eq_false_iff_ne]
  omega

/-- A printed number is a word. -/
lemma word_formatLong (n : ℤ) : Word (formatLong n) := by
  have hdigits : ∀ c ∈ Nat.toDigits 10 n.natAbs, isSpace c = false := fun c hc =>
    isSpace_of_isDigit (Nat.isDigit_of_mem_toDigits (by decide) (by decide) hc)
  rw [formatLong]
  split
  · exact ⟨List.cons_ne_nil _ _, List.forall_mem_cons.mpr ⟨by decide, hdigits⟩⟩
  · exact ⟨Nat.toDigits_ne_nil, hdigits⟩

/-- The characters of a word join the current word. -/
lemma splitFrom_append {w : List Char} (hw : ∀ c ∈ w, isSpace c = false) (word rest : List Char) :
    splitFrom word (w ++ rest) = splitFrom (word ++ w) rest := by
  induction w generalizing word with
  | nil => simp
  | cons c cs ih =>
    obtain ⟨hc, hcs⟩ := List.forall_mem_cons.mp hw
    rw [List.cons_append, splitFrom, if_neg (by rw [hc]; decide), ih hcs, List.append_assoc]
    rfl

/-- White space in front does not matter. -/
lemma split_dropWhile (s : List Char) : split (s.dropWhile isSpace) = split s := by
  induction s with
  | nil => rfl
  | cons c cs ih =>
    by_cases hc : isSpace c = true
    · rw [List.dropWhile_cons_of_pos hc, ih, split, split, splitFrom, if_pos hc, if_pos rfl]
    · rw [List.dropWhile_cons_of_neg hc]

/-- White space behind does not matter. -/
lemma splitFrom_concat {c : Char} (hc : isSpace c = true) (word s : List Char) :
    splitFrom word (s ++ [c]) = splitFrom word s := by
  induction s generalizing word with
  | nil => rw [List.nil_append, splitFrom.eq_2, if_pos hc, splitFrom, if_pos rfl, splitFrom]
  | cons d cs ih => rw [List.cons_append, splitFrom, splitFrom, ih, ih]

/-- Cutting off both ends keeps a first character that is not cut off. -/
lemma head_rdropWhile_dropWhile {p : Char → Bool} {c : Char} (hc : p c = false) (cs : List Char) :
    (((c :: cs).dropWhile p).rdropWhile p).head? = some c := by
  have hneg : ¬p c = true := by
    rw [hc]
    decide
  rw [List.dropWhile_cons_of_neg hneg]
  obtain ⟨rest, hrest⟩ := List.rdropWhile_prefix p (c :: cs)
  cases hdrop : (c :: cs).rdropWhile p with
  | nil => exact absurd (List.rdropWhile_eq_nil_iff.mp hdrop c List.mem_cons_self) hneg
  | cons d ds =>
    rw [hdrop, List.cons_append] at hrest
    rw [(List.cons.inj hrest).1]
    rfl

/-- Stripping does not change the words. -/
lemma split_strip (s : List Char) : split (strip s) = split s := by
  rw [strip, ← split_dropWhile s]
  induction s.dropWhile isSpace using List.reverseRecOn with
  | nil => rfl
  | append_singleton s c ih =>
    by_cases hc : isSpace c = true
    · rw [List.rdropWhile_concat_pos _ _ _ hc, ih]
      exact (splitFrom_concat hc [] s).symm
    · rw [List.rdropWhile_concat_neg _ _ _ hc]

/-- The fields of a line are words. -/
lemma word_of_mem_splitFrom {word s w : List Char} (hword : ∀ c ∈ word, isSpace c = false)
    (hw : w ∈ splitFrom word s) : Word w := by
  induction s generalizing word with
  | nil =>
    rw [splitFrom] at hw
    split at hw
    · cases hw
    · rename_i hne
      rw [List.mem_singleton.mp hw]
      exact ⟨hne, hword⟩
  | cons c cs ih =>
    have hnil : ∀ d ∈ ([] : List Char), isSpace d = false := fun _ hd => absurd hd List.not_mem_nil
    rw [splitFrom] at hw
    split at hw
    · split at hw
      · exact ih hnil hw
      · rename_i hne
        rcases List.mem_cons.mp hw with rfl | hw
        · exact ⟨hne, hword⟩
        · exact ih hnil hw
    · rename_i hc
      refine ih (fun d hd => ?_) hw
      rcases List.mem_append.mp hd with hd | hd
      · exact hword d hd
      · rw [List.mem_singleton.mp hd]
        exact Bool.eq_false_of_not_eq_true hc

/-- Text without white space, which may be empty. -/
def NoSpace (w : List Char) : Prop := ∀ c ∈ w, isSpace c = false

/-- Text without white space in front of a blank is a word, unless it is empty. -/
lemma split_append_blank {w : List Char} (hw : NoSpace w) (s : List Char) :
    split (w ++ ' ' :: s) = [w].filter (fun v => v ≠ []) ++ split s := by
  rw [split, splitFrom_append hw, List.nil_append, splitFrom, if_pos (by decide), ← split]
  by_cases hne : w = []
  · rw [if_pos hne, hne]
    rfl
  · have hkeep : [w].filter (fun v => v ≠ []) = [w] :=
      List.filter_eq_self.mpr fun v hv => decide_eq_true (List.mem_singleton.mp hv ▸ hne)
    rw [if_neg hne, hkeep, List.singleton_append]

/-- **Splitting a line into its fields**: the ones that are empty are lost. -/
theorem split_join_filter {words : List (List Char)} (hwords : ∀ w ∈ words, NoSpace w) :
    split (List.intercalate [' '] words) = words.filter fun w => w ≠ [] := by
  induction words with
  | nil => rfl
  | cons w ws ih =>
    obtain ⟨hw, hws⟩ := List.forall_mem_cons.mp hwords
    cases ws with
    | nil =>
      have h := split_append_blank hw []
      have hblank := splitFrom_concat (c := ' ') (by decide) [] w
      have hnil : split [] = [] := rfl
      rw [← split, ← split] at hblank
      rw [List.intercalate_singleton, ← hblank, h, hnil, List.append_nil]
    | cons w' ws =>
      rw [List.intercalate_cons_cons, List.append_assoc, List.singleton_append,
        split_append_blank hw, ih hws, ← List.filter_append, List.singleton_append]

/-- Words are not empty. -/
lemma filter_words {words : List (List Char)} (hwords : ∀ w ∈ words, Word w) :
    words.filter (fun w => w ≠ []) = words :=
  List.filter_eq_self.mpr fun w hw => decide_eq_true (hwords w hw).ne_nil

/-- **Splitting a line into its words.** -/
theorem split_join {words : List (List Char)} (hwords : ∀ w ∈ words, Word w) :
    split (List.intercalate [' '] words) = words := by
  rw [split_join_filter fun w hw => (hwords w hw).not_space, filter_words hwords]

/-- A line as it is written: fields, single blanks between them, and a line feed. -/
def line (words : List (List Char)) : List Char := List.intercalate [' '] words ++ ['\n']

/-- **Reading back the fields of a line**, but for the empty ones. -/
theorem split_strip_line_filter {words : List (List Char)} (hwords : ∀ w ∈ words, NoSpace w) :
    split (strip (line words)) = words.filter fun w => w ≠ [] := by
  rw [split_strip, line, split, splitFrom_concat (by decide), ← split, split_join_filter hwords]

/-- **Reading back the words of a line.** -/
theorem split_strip_line {words : List (List Char)} (hwords : ∀ w ∈ words, Word w) :
    split (strip (line words)) = words := by
  rw [split_strip_line_filter fun w hw => (hwords w hw).not_space, filter_words hwords]

/-- Blanks in front do not matter. -/
lemma split_replicate (m : ℕ) (s : List Char) : split (List.replicate m ' ' ++ s) = split s := by
  induction m with
  | zero => rfl
  | succ m ih =>
    rw [List.replicate_succ, List.cons_append, split, splitFrom, if_pos (by decide), if_pos rfl]
    exact ih

/-- A word in front of blanks comes first. -/
lemma split_word_append {w : List Char} (hw : Word w) (m : ℕ) (s : List Char) :
    split (w ++ List.replicate m ' ' ++ ' ' :: s) = w :: split s := by
  have hblanks : List.replicate m ' ' ++ ' ' :: s = ' ' :: (List.replicate m ' ' ++ s) := by
    rw [← List.singleton_append, ← List.append_assoc, ← List.replicate_succ', List.replicate_succ,
      List.cons_append]
  rw [List.append_assoc, hblanks, split, splitFrom_append hw.not_space, List.nil_append, splitFrom,
    if_pos (by decide), if_neg hw.ne_nil, ← split, split_replicate]

/-! ### Lines -/

/-- What reading in text mode makes of the line ends. -/
def universalNewlines : List Char → List Char
  | [] => []
  | '\r' :: '\n' :: cs => '\n' :: universalNewlines cs
  | '\r' :: cs => '\n' :: universalNewlines cs
  | c :: cs => c :: universalNewlines cs

/-- The lines of a text, where `line` is the part of the current one already read. -/
def linesFrom (line : List Char) : List Char → List (List Char)
  | [] => if line = [] then [] else [line]
  | c :: cs => if c = '\n' then (line ++ [c]) :: linesFrom [] cs else linesFrom (line ++ [c]) cs

/-- `for l in fp`: the lines of a text file, each with its line feed. -/
def readLines (text : List Char) : List (List Char) := linesFrom [] (universalNewlines text)

/-- Text without carriage returns is read as it is, whatever follows. -/
lemma universalNewlines_append {text : List Char} (h : '\r' ∉ text) (rest : List Char) :
    universalNewlines (text ++ rest) = text ++ universalNewlines rest := by
  induction text with
  | nil => rfl
  | cons c cs ih =>
    rw [List.mem_cons, not_or] at h
    rw [List.cons_append, universalNewlines, ih h.2, List.cons_append]
    · exact fun _ hc _ => h.1 hc.symm
    · exact fun hc => h.1 hc.symm

/-- The characters of a line join the current line. -/
lemma linesFrom_append {l : List Char} (hl : '\n' ∉ l) (line rest : List Char) :
    linesFrom line (l ++ rest) = linesFrom (line ++ l) rest := by
  induction l generalizing line with
  | nil => simp
  | cons c cs ih =>
    rw [List.mem_cons, not_or] at hl
    rw [List.cons_append, linesFrom, if_neg (Ne.symm hl.1), ih hl.2, List.append_assoc]
    rfl

/-- A text without line ends. -/
def OneLine (l : List Char) : Prop := '\n' ∉ l ∧ '\r' ∉ l

/-- **Reading back lines**, whatever follows them. -/
theorem readLines_flatMap_append (ls : List (List Char)) (hls : ∀ l ∈ ls, OneLine l)
    (rest : List Char) :
    readLines ((ls.flatMap fun l => l ++ ['\n']) ++ rest) =
      (ls.map fun l => l ++ ['\n']) ++ readLines rest := by
  have hreturn : '\r' ∉ ls.flatMap fun l => l ++ ['\n'] := by
    rw [List.mem_flatMap]
    rintro ⟨l, hl, hmem⟩
    rcases List.mem_append.mp hmem with h | h
    · exact (hls l hl).2 h
    · simp at h
  rw [readLines, universalNewlines_append hreturn, readLines]
  clear hreturn
  induction ls with
  | nil => rfl
  | cons l ls ih =>
    obtain ⟨hl, hls⟩ := List.forall_mem_cons.mp hls
    rw [List.flatMap_cons, List.append_assoc, List.append_assoc, linesFrom_append hl.1,
      List.nil_append, List.singleton_append, linesFrom, if_pos rfl, ih hls, List.map_cons,
      List.cons_append]

/-- Reading back the lines of a file. -/
theorem readLines_flatMap {ls : List (List Char)} (hls : ∀ l ∈ ls, OneLine l) :
    readLines (ls.flatMap fun l => l ++ ['\n']) = ls.map fun l => l ++ ['\n'] := by
  have hnil : readLines [] = [] := rfl
  have h := readLines_flatMap_append ls hls []
  rwa [List.append_nil, hnil, List.append_nil] at h

/-- Text without white space is on one line. -/
lemma NoSpace.oneLine {w : List Char} (hw : NoSpace w) : OneLine w := by
  refine ⟨fun h => ?_, fun h => ?_⟩
  · exact absurd (hw _ h) (by decide)
  · exact absurd (hw _ h) (by decide)

/-- A word is on one line. -/
lemma oneLine_of_word {w : List Char} (hw : Word w) : OneLine w := NoSpace.oneLine hw.not_space

/-- The fields of a line, and the blanks between them, are on one line. -/
lemma oneLine_join {words : List (List Char)} (hwords : ∀ w ∈ words, NoSpace w) :
    OneLine (List.intercalate [' '] words) := by
  induction words with
  | nil => exact ⟨List.not_mem_nil, List.not_mem_nil⟩
  | cons w ws ih =>
    obtain ⟨hw, hws⟩ := List.forall_mem_cons.mp hwords
    cases ws with
    | nil =>
      rw [List.intercalate_singleton]
      exact hw.oneLine
    | cons w' ws =>
      have hrest := ih hws
      have hw := hw.oneLine
      rw [List.intercalate_cons_cons]
      constructor
      · rw [List.mem_append, List.mem_append, not_or, not_or]
        exact ⟨⟨hw.1, by decide⟩, hrest.1⟩
      · rw [List.mem_append, List.mem_append, not_or, not_or]
        exact ⟨⟨hw.2, by decide⟩, hrest.2⟩

/-- The words of a line, and the blanks between them, are on one line. -/
lemma oneLine_intercalate {words : List (List Char)} (hwords : ∀ w ∈ words, Word w) :
    OneLine (List.intercalate [' '] words) :=
  oneLine_join fun w hw => (hwords w hw).not_space

/-- The first line starts as the part of it that is already read. -/
lemma head_of_linesFrom {line : List Char} (hline : line ≠ []) (text : List Char) :
    ∃ l ls, linesFrom line text = l :: ls ∧ l.head? = line.head? := by
  induction text generalizing line with
  | nil => exact ⟨line, [], by rw [linesFrom, if_neg hline], rfl⟩
  | cons c cs ih =>
    have hhead : (line ++ [c]).head? = line.head? := by
      rw [List.head?_append_of_ne_nil _ hline]
    rw [linesFrom]
    split
    · exact ⟨_, _, rfl, hhead⟩
    · have hne : line ++ [c] ≠ [] := List.append_ne_nil_of_right_ne_nil _ (List.cons_ne_nil c [])
      obtain ⟨l, ls, heq, hl⟩ := ih hne
      exact ⟨l, ls, heq, hl.trans hhead⟩

/-- A character that ends no line is first only when it was. -/
lemma head_of_universalNewlines {text : List Char} {c : Char} (hc : c ≠ '\n')
    (h : (universalNewlines text).head? = some c) : text.head? = some c := by
  fun_cases universalNewlines text with
  | case1 => exact h
  | case2 => exact absurd (Option.some.inj h).symm hc
  | case3 cs hcs =>
    rw [universalNewlines] at h
    · exact absurd (Option.some.inj h).symm hc
    · exact hcs
  | case4 d cs hlf hcr =>
    rw [universalNewlines] at h
    · exact h
    · exact hlf
    · exact hcr

/-- The first line of a text starts as the text does, but for the line ends. -/
lemma head_of_readLines {text : List Char} {l : List Char} {ls : List (List Char)}
    (h : readLines text = l :: ls) : l.head? = (universalNewlines text).head? := by
  rw [readLines] at h
  cases htext : universalNewlines text with
  | nil =>
    rw [htext, linesFrom, if_pos rfl] at h
    cases h
  | cons c cs =>
    rw [htext, linesFrom] at h
    split at h
    · obtain ⟨rfl, -⟩ := List.cons.inj h
      rfl
    · obtain ⟨l', ls', heq, hl⟩ := head_of_linesFrom (List.cons_ne_nil c []) cs
      rw [List.nil_append, heq] at h
      obtain ⟨rfl, -⟩ := List.cons.inj h
      exact hl

end PythonText
