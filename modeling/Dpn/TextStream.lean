import Mathlib.Data.List.TakeWhile
import Mathlib.Tactic

/-!
# Text streams and decimal numbers

Byte strings with the operations of the C++ library that a textual address
codec rests on: an input string stream read by `getline`, decimal printing by
`to_string` and decimal parsing by `stoi`.
-/

namespace TextStream

/-- A `std::string`: any sequence of bytes. -/
abbrev Str := List UInt8

/-! ## Lines of an input stream -/

/-- An input string stream: the unread bytes, and whether no end of file has
been met yet. -/
structure IStream where
  rest : Str
  good : Bool
  deriving DecidableEq, Repr

def IStream.ofStr (contents : Str) : IStream := ⟨contents, true⟩

/-- `std::getline` into `line`.  A stream that is no longer good leaves `line`
as it was. -/
def IStream.getline (stream : IStream) (line : Str) (delim : UInt8) :
    Str × IStream :=
  if stream.good then
    if delim ∈ stream.rest then
      (stream.rest.takeWhile (· ≠ delim),
        ⟨(stream.rest.dropWhile (· ≠ delim)).tail, true⟩)
    else (stream.rest, ⟨[], false⟩)
  else (line, stream)

theorem getline_of_notMem {rest : Str} {delim : UInt8} (line : Str)
    (hdelim : delim ∉ rest) :
    (IStream.mk rest true).getline line delim = (rest, ⟨[], false⟩) := by
  simp [IStream.getline, hdelim]

theorem getline_append {first rest : Str} {delim : UInt8} (line : Str)
    (hdelim : delim ∉ first) :
    (IStream.mk (first ++ delim :: rest) true).getline line delim =
      (first, ⟨rest, true⟩) := by
  have hfirst : ∀ byte ∈ first, decide (byte ≠ delim) = true := by
    intro byte hbyte
    simpa using ne_of_mem_of_not_mem hbyte hdelim
  have htake : (first ++ delim :: rest).takeWhile (· ≠ delim) = first := by
    rw [List.takeWhile_append_of_pos hfirst]
    simp
  have hdrop : (first ++ delim :: rest).dropWhile (· ≠ delim) =
      delim :: rest := by
    rw [List.dropWhile_append_of_pos hfirst]
    simp
  simp only [IStream.getline, if_true, List.mem_append, List.mem_cons,
    true_or, or_true, htake, hdrop, List.tail_cons]

def before (delim : UInt8) (text : Str) : Str :=
  text.takeWhile (· ≠ delim)

def after (delim : UInt8) (text : Str) : Str :=
  (text.dropWhile (· ≠ delim)).tail

theorem not_mem_before (delim : UInt8) (text : Str) :
    delim ∉ before delim text := by
  intro hmem
  simpa using List.mem_takeWhile_imp hmem

theorem before_subset (delim : UInt8) (text : Str) :
    before delim text ⊆ text :=
  (List.takeWhile_prefix _).subset

theorem before_of_notMem {delim : UInt8} {text : Str} (hdelim : delim ∉ text) :
    before delim text = text := by
  apply List.takeWhile_eq_self_iff.mpr
  intro byte hbyte
  simpa using ne_of_mem_of_not_mem hbyte hdelim

theorem after_of_notMem {delim : UInt8} {text : Str} (hdelim : delim ∉ text) :
    after delim text = [] := by
  have hdrop : text.dropWhile (· ≠ delim) = [] := by
    apply List.dropWhile_eq_nil_iff.mpr
    intro byte hbyte
    simpa using ne_of_mem_of_not_mem hbyte hdelim
  rw [after, hdrop, List.tail_nil]

/-- A line read from a stream that is still good is the text before the
delimiter, or all of it. -/
theorem getline_good (rest line : Str) (delim : UInt8) :
    (IStream.mk rest true).getline line delim =
      (before delim rest, ⟨after delim rest, decide (delim ∈ rest)⟩) := by
  by_cases hdelim : delim ∈ rest
  · simp [IStream.getline, hdelim, before, after]
  · rw [getline_of_notMem line hdelim, before_of_notMem hdelim,
      after_of_notMem hdelim]
    simp [hdelim]

theorem getline_not_good (rest line : Str) (delim : UInt8) :
    (IStream.mk rest false).getline line delim = (line, ⟨rest, false⟩) := rfl

/-! ## Decimal numbers -/

def toString (value : ℕ) : Str :=
  (Nat.toDigits 10 value).map fun digit => UInt8.ofNat digit.toNat

inductive StoiError where
  | invalidArgument
  | outOfRange
  deriving DecidableEq, Repr

def isSpace (byte : UInt8) : Bool := byte = 32 || (9 ≤ byte && byte ≤ 13)

def isDigit (byte : UInt8) : Bool := 48 ≤ byte && byte ≤ 57

def digitsValue (digits : Str) : ℕ :=
  digits.foldl (fun value digit => 10 * value + (digit.toNat - 48)) 0

def splitSign : Str → Bool × Str
  | 45 :: rest => (true, rest)
  | 43 :: rest => (false, rest)
  | rest => (false, rest)

/-- `std::stoi` in base ten for a 32-bit `int`: white space, a sign and the
longest run of digits are read, and whatever follows them is ignored. -/
def stoi (text : Str) : Except StoiError ℤ :=
  let (negative, rest) := splitSign (text.dropWhile isSpace)
  let digits := rest.takeWhile isDigit
  if digits = [] then .error .invalidArgument
  else
    let magnitude : ℤ := digitsValue digits
    let value := if negative then -magnitude else magnitude
    if value < -2 ^ 31 ∨ 2 ^ 31 ≤ value then .error .outOfRange
    else .ok value

theorem toString_of_lt_ten {value : ℕ} (hvalue : value < 10) :
    toString value = [UInt8.ofNat (48 + value)] := by
  rw [toString, Nat.toDigits_of_lt_base hvalue, List.map_singleton,
    Nat.toNat_digitChar_of_lt_ten hvalue]

theorem toString_of_ten_le {value : ℕ} (hvalue : 10 ≤ value) :
    toString value =
      toString (value / 10) ++ [UInt8.ofNat (48 + value % 10)] := by
  rw [toString, toString, Nat.toDigits_of_base_le (by omega) hvalue,
    List.map_append, List.map_singleton,
    Nat.toNat_digitChar_of_lt_ten (Nat.mod_lt value (by omega))]

theorem isDigit_ofNat {digit : ℕ} (hdigit : digit < 10) :
    isDigit (UInt8.ofNat (48 + digit)) = true := by
  interval_cases digit <;> rfl

theorem isDigit_of_mem_toString {value : ℕ} {byte : UInt8}
    (hbyte : byte ∈ toString value) : isDigit byte = true := by
  induction value using Nat.strong_induction_on generalizing byte with
  | _ value ih =>
      rcases Nat.lt_or_ge value 10 with hsmall | hlarge
      · rw [toString_of_lt_ten hsmall, List.mem_singleton] at hbyte
        exact hbyte ▸ isDigit_ofNat hsmall
      · rw [toString_of_ten_le hlarge, List.mem_append,
          List.mem_singleton] at hbyte
        rcases hbyte with hinit | hlast
        · exact ih (value / 10) (by omega) hinit
        · exact hlast ▸ isDigit_ofNat (Nat.mod_lt value (by omega))

theorem toString_ne_nil (value : ℕ) : toString value ≠ [] := by
  simp [toString, Nat.toDigits_ne_nil]

theorem digitsValue_append_singleton (digits : Str) (digit : UInt8) :
    digitsValue (digits ++ [digit]) =
      10 * digitsValue digits + (digit.toNat - 48) := by
  simp [digitsValue]

theorem digitsValue_toString (value : ℕ) :
    digitsValue (toString value) = value := by
  induction value using Nat.strong_induction_on with
  | _ value ih =>
      rcases Nat.lt_or_ge value 10 with hsmall | hlarge
      · rw [toString_of_lt_ten hsmall]
        simp only [digitsValue, List.foldl_cons, List.foldl_nil,
          UInt8.toNat_ofNat']
        omega
      · rw [toString_of_ten_le hlarge, digitsValue_append_singleton,
          ih (value / 10) (by omega), UInt8.toNat_ofNat']
        omega

theorem not_mem_toString_of_not_isDigit {value : ℕ} {byte : UInt8}
    (hbyte : isDigit byte = false) : byte ∉ toString value := by
  intro hmem
  rw [isDigit_of_mem_toString hmem] at hbyte
  contradiction

theorem splitSign_of_isDigit {byte : UInt8} {rest : Str}
    (hbyte : isDigit byte = true) :
    splitSign (byte :: rest) = (false, byte :: rest) := by
  unfold splitSign
  split
  · simp_all [isDigit]
  · simp_all [isDigit]
  · rfl

theorem isSpace_of_isDigit {byte : UInt8} (hbyte : isDigit byte = true) :
    isSpace byte = false := by
  simp only [isDigit, isSpace, Bool.and_eq_true, decide_eq_true_eq,
    Bool.or_eq_false_iff, decide_eq_false_iff_not, Bool.and_eq_false_iff,
    UInt8.le_iff_toNat_le, ← UInt8.toNat_inj] at hbyte ⊢
  have h48 : (48 : UInt8).toNat = 48 := rfl
  have h57 : (57 : UInt8).toNat = 57 := rfl
  have h32 : (32 : UInt8).toNat = 32 := rfl
  have h13 : (13 : UInt8).toNat = 13 := rfl
  omega

/-- `stoi` reads back what `to_string` printed, if it fits an `int`. -/
theorem stoi_toString {value : ℕ} (hvalue : value < 2 ^ 31) :
    stoi (toString value) = .ok value := by
  obtain ⟨byte, rest, hcons⟩ := List.exists_cons_of_ne_nil (toString_ne_nil value)
  have hdigits : ∀ digit ∈ toString value, isDigit digit = true :=
    fun digit hdigit => isDigit_of_mem_toString hdigit
  have hbyte : isDigit byte = true := hdigits byte (by simp [hcons])
  have hspace : (toString value).dropWhile isSpace = toString value := by
    rw [hcons, List.dropWhile_cons_of_neg (by simp [isSpace_of_isDigit hbyte])]
  have hsign : splitSign (toString value) = (false, toString value) := by
    rw [hcons, splitSign_of_isDigit hbyte]
  have hrun : (toString value).takeWhile isDigit = toString value :=
    List.takeWhile_eq_self_iff.mpr hdigits
  have hrange : ¬((value : ℤ) < -2 ^ 31 ∨ (2 : ℤ) ^ 31 ≤ value) := by
    omega
  simp only [stoi, hspace, hsign, hrun, toString_ne_nil, if_false,
    digitsValue_toString, Bool.false_eq_true, hrange]

/-- The text starts with white space, an optional sign and the digits of a
number; what comes next is no digit. -/
def StartsWith (text : Str) (value : ℤ) : Prop :=
  ∃ spaces sign digits rest, text = spaces ++ (sign ++ (digits ++ rest)) ∧
    (∀ byte ∈ spaces, isSpace byte = true) ∧
    sign ∈ ([[], [43], [45]] : List Str) ∧
    digits ≠ [] ∧ (∀ byte ∈ digits, isDigit byte = true) ∧
    (∀ byte ∈ rest.head?, isDigit byte = false) ∧
    value = if sign = [45] then -(digitsValue digits : ℤ)
      else digitsValue digits

theorem splitSign_spec (text : Str) :
    ∃ sign ∈ ([[], [43], [45]] : List Str),
      text = sign ++ (splitSign text).2 ∧
        ((splitSign text).1 = true ↔ sign = [45]) := by
  unfold splitSign
  split
  · exact ⟨[45], by simp, rfl, by simp⟩
  · exact ⟨[43], by simp, rfl, by simp⟩
  · exact ⟨[], by simp, rfl, by simp⟩

theorem splitSign_append {sign digits rest : Str}
    (hsign : sign ∈ ([[], [43], [45]] : List Str)) (hdigits : digits ≠ [])
    (hall : ∀ byte ∈ digits, isDigit byte = true) :
    splitSign (sign ++ (digits ++ rest)) =
      (decide (sign = [45]), digits ++ rest) := by
  simp only [List.mem_cons, List.not_mem_nil, or_false] at hsign
  rcases hsign with rfl | rfl | rfl
  · obtain ⟨digit, others, rfl⟩ := List.exists_cons_of_ne_nil hdigits
    exact splitSign_of_isDigit (hall digit (by simp))
  · rfl
  · rfl

theorem dropWhile_isSpace_append {spaces sign digits rest : Str}
    (hspaces : ∀ byte ∈ spaces, isSpace byte = true)
    (hsign : sign ∈ ([[], [43], [45]] : List Str)) (hdigits : digits ≠ [])
    (hall : ∀ byte ∈ digits, isDigit byte = true) :
    (spaces ++ (sign ++ (digits ++ rest))).dropWhile isSpace =
      sign ++ (digits ++ rest) := by
  rw [List.dropWhile_append_of_pos hspaces]
  simp only [List.mem_cons, List.not_mem_nil, or_false] at hsign
  rcases hsign with rfl | rfl | rfl
  · obtain ⟨digit, others, rfl⟩ := List.exists_cons_of_ne_nil hdigits
    have hspace := isSpace_of_isDigit (hall digit (by simp))
    exact List.dropWhile_cons_of_neg (by simp [hspace])
  · rfl
  · rfl

theorem takeWhile_isDigit_append {digits rest : Str}
    (hall : ∀ byte ∈ digits, isDigit byte = true)
    (hrest : ∀ byte ∈ rest.head?, isDigit byte = false) :
    (digits ++ rest).takeWhile isDigit = digits := by
  rw [List.takeWhile_append_of_pos hall]
  cases rest with
  | nil => simp
  | cons byte others =>
      rw [List.takeWhile_cons_of_neg (by simp [hrest byte rfl]),
        List.append_nil]

/-- `stoi` reads exactly the texts that start with a number of an `int`. -/
theorem stoi_eq_ok_iff {text : Str} {value : ℤ} :
    stoi text = .ok value ↔
      StartsWith text value ∧ -2 ^ 31 ≤ value ∧ value < 2 ^ 31 := by
  constructor
  · intro hok
    obtain ⟨sign, hsign, hsplit, hnegative⟩ :=
      splitSign_spec (text.dropWhile isSpace)
    set rest := (splitSign (text.dropWhile isSpace)).2 with hrest
    simp only [stoi, ← hrest] at hok
    split at hok
    · contradiction
    · rename_i hdigits
      generalize hread : (if (splitSign (text.dropWhile isSpace)).1 = true
        then -(digitsValue (rest.takeWhile isDigit) : ℤ)
        else digitsValue (rest.takeWhile isDigit)) = read at hok
      split at hok
      · contradiction
      · rename_i hrange
        obtain rfl := Except.ok.inj hok
        refine ⟨⟨text.takeWhile isSpace, sign, rest.takeWhile isDigit,
          rest.dropWhile isDigit, ?_, ?_, hsign, hdigits, ?_, ?_, ?_⟩,
          by omega, by omega⟩
        · rw [List.takeWhile_append_dropWhile, ← hsplit,
            List.takeWhile_append_dropWhile]
        · exact fun byte hbyte => List.mem_takeWhile_imp hbyte
        · exact fun byte hbyte => List.mem_takeWhile_imp hbyte
        · intro byte hbyte
          have hhead := List.head?_dropWhile_not isDigit rest
          rw [Option.mem_def.mp hbyte] at hhead
          simpa using hhead
        · rw [← hread]
          simp only [hnegative]
  · rintro ⟨⟨spaces, sign, digits, rest, rfl, hspaces, hsign, hdigits, hall,
      hrest, hvalue⟩, hlow, hhigh⟩
    have hrange : ¬(value < -2 ^ 31 ∨ 2 ^ 31 ≤ value) := by omega
    simp only [stoi, dropWhile_isSpace_append hspaces hsign hdigits hall,
      splitSign_append hsign hdigits hall, takeWhile_isDigit_append hall hrest,
      hdigits, if_false, decide_eq_true_eq, ← hvalue, hrange]

end TextStream
