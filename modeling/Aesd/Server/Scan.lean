import Aesd.Driver.Device

/-!
# Reading the seek command

The C library functions that `data_processing` applies to a packet: `strchr`, and
`sscanf` with `"AESDCHAR_IOCSEEKTO:%u,%u"`.  A conversion `%u` skips white space,
takes an optional sign, and reads digits with `strtoul`, whose 64-bit result is cut
to an `unsigned int`; what follows the last conversion is not looked at.
-/

namespace Aesd.Server

open Aesd.Driver

/-! ## Strings -/

/-- The C string in a buffer: the bytes before the first NUL. -/
def cString (bytes : List UInt8) : List UInt8 := bytes.takeWhile (· ≠ 0)

theorem cString_of_not_mem {bytes : List UInt8} (h : 0 ∉ bytes) : cString bytes = bytes := by
  rw [cString, List.takeWhile_eq_self_iff]
  intro c hc
  have hne : c ≠ 0 := fun heq => h (heq ▸ hc)
  simpa using hne

/-- Whether `strchr` finds `c`, which is not NUL. -/
def strchr (bytes : List UInt8) (c : UInt8) : Bool := (cString bytes).contains c

/-! ## `sscanf` -/

/-- `isspace` in the C locale. -/
def isSpace (c : UInt8) : Bool := c == 32 || (9 ≤ c && c ≤ 13)

/-- `isdigit`. -/
def isDigit (c : UInt8) : Bool := 48 ≤ c && c ≤ 57

/-- The number a string of digits stands for. -/
def decimalValue (digits : List UInt8) : Nat :=
  digits.foldl (fun n c => 10 * n + (c.toNat - 48)) 0

/-- `strtoul` on a sign and the number behind it. -/
def strtoul (negative : Bool) (n : Nat) : Nat :=
  if 2 ^ 64 ≤ n then 2 ^ 64 - 1 else if negative then (2 ^ 64 - n) % 2 ^ 64 else n

/-- The optional sign in front of a number. -/
def scanSign : List UInt8 → Bool × List UInt8
  | 43 :: s => (false, s)
  | 45 :: s => (true, s)
  | s => (false, s)

/-- The conversion `%u`: the value and what is left, or nothing if there is no
digit. -/
def scanUnsigned (s : List UInt8) : Option (UInt32 × List UInt8) :=
  let (negative, s) := scanSign (s.dropWhile isSpace)
  let digits := s.takeWhile isDigit
  if digits = [] then none
  else some (UInt32.ofNat (strtoul negative (decimalValue digits)), s.dropWhile isDigit)

/-- The bytes of `"AESDCHAR_IOCSEEKTO:"`. -/
def seektoPrefix : List UInt8 :=
  [65, 69, 83, 68, 67, 72, 65, 82, 95, 73, 79, 67, 83, 69, 69, 75, 84, 79, 58]

/-- `sscanf(s, "AESDCHAR_IOCSEEKTO:%u,%u", &x, &y)` when it makes both conversions. -/
def sscanfSeekto (s : List UInt8) : Option (UInt32 × UInt32) :=
  if seektoPrefix.isPrefixOf s then
    match scanUnsigned (s.drop seektoPrefix.length) with
    | some (x, 44 :: s) => (scanUnsigned s).map fun r => (x, r.1)
    | _ => none
  else none

/-- The condition of line 220: the command in a packet, if it is one. -/
def seekCommand (packet : List UInt8) : Option AesdSeekto :=
  match sscanfSeekto (cString packet) with
  | some (x, y) =>
      if x.toNat < maxWriteOperationsSupported then some { writeCmd := x, writeCmdOffset := y }
      else none
  | none => none

/-! ## Digits -/

/-- A non-empty string of decimal digits. -/
def IsDecimal (digits : List UInt8) : Prop := digits ≠ [] ∧ ∀ c ∈ digits, isDigit c = true

theorem isSpace_of_isDigit {c : UInt8} (h : isDigit c = true) : isSpace c = false := by
  simp only [isDigit, isSpace, Bool.and_eq_true, decide_eq_true_eq, UInt8.le_iff_toNat_le,
    Bool.or_eq_false_iff, beq_eq_false_iff_ne, Bool.and_eq_false_iff, decide_eq_false_iff_not,
    ne_eq, ← UInt8.toNat_inj] at *
  have h48 : (48 : UInt8).toNat = 48 := rfl
  have h13 : (13 : UInt8).toNat = 13 := rfl
  have h32 : (32 : UInt8).toNat = 32 := rfl
  omega

theorem scanSign_of_isDigit {c : UInt8} (h : isDigit c = true) (s : List UInt8) :
    scanSign (c :: s) = (false, c :: s) := by
  unfold scanSign
  split
  · rename_i heq
    obtain rfl : c = 43 := (List.cons.inj heq).1
    cases h
  · rename_i heq
    obtain rfl : c = 45 := (List.cons.inj heq).1
    cases h
  · rfl

/-! ## What the format reads -/

/-- `%u` reads `value` from the front of `text`, behind white space and an optional sign,
and leaves `rest`, which does not go on with a digit. -/
def Scans (text : List UInt8) (value : UInt32) (rest : List UInt8) : Prop :=
  ∃ spaces sign digits : List UInt8, text = spaces ++ (sign ++ (digits ++ rest)) ∧
    (∀ c ∈ spaces, isSpace c = true) ∧ sign ∈ [[], [43], [45]] ∧ IsDecimal digits ∧
    (∀ c ∈ rest.head?, isDigit c = false) ∧
    value = UInt32.ofNat (strtoul (sign == [45]) (decimalValue digits))

/-- The sign that `scanSign` takes off. -/
theorem exists_sign (s : List UInt8) :
    ∃ sign ∈ [[], [43], [45]], s = sign ++ (scanSign s).2 ∧ (scanSign s).1 = (sign == [45]) := by
  unfold scanSign
  split
  · exact ⟨[43], by decide, rfl, rfl⟩
  · exact ⟨[45], by decide, rfl, rfl⟩
  · exact ⟨[], by decide, rfl, rfl⟩

/-- A run of digits ends where no digit follows. -/
theorem takeWhile_digits {digits rest : List UInt8} (hdigits : ∀ c ∈ digits, isDigit c = true)
    (hrest : ∀ c ∈ rest.head?, isDigit c = false) :
    (digits ++ rest).takeWhile isDigit = digits ∧ (digits ++ rest).dropWhile isDigit = rest := by
  rw [List.takeWhile_append_of_pos hdigits, List.dropWhile_append_of_pos hdigits]
  cases rest with
  | nil => simp
  | cons c rest =>
      have hc : ¬isDigit c = true := by simp [hrest c rfl]
      rw [List.takeWhile_cons_of_neg hc, List.dropWhile_cons_of_neg hc, List.append_nil]
      exact ⟨rfl, rfl⟩

/-- **The conversion `%u`** makes a value out of exactly these texts. -/
theorem scanUnsigned_eq_some_iff {text rest : List UInt8} {value : UInt32} :
    scanUnsigned text = some (value, rest) ↔ Scans text value rest := by
  constructor
  · intro h
    obtain ⟨sign, hsign, htext, hnegative⟩ := exists_sign (text.dropWhile isSpace)
    have hspaces : text = text.takeWhile isSpace ++ text.dropWhile isSpace :=
      List.takeWhile_append_dropWhile.symm
    have hdigits : ∀ s : List UInt8, s = s.takeWhile isDigit ++ s.dropWhile isDigit := fun _ =>
      List.takeWhile_append_dropWhile.symm
    simp only [scanUnsigned] at h
    generalize scanSign (text.dropWhile isSpace) = scanned at *
    by_cases hnone : scanned.2.takeWhile isDigit = []
    · rw [if_pos hnone] at h
      cases h
    · rw [if_neg hnone] at h
      obtain ⟨rfl, rfl⟩ := Prod.mk.inj (Option.some.inj h)
      refine ⟨text.takeWhile isSpace, sign, scanned.2.takeWhile isDigit, ?_, ?_, hsign,
        ⟨hnone, ?_⟩, ?_, ?_⟩
      · rw [← hdigits, ← htext, ← hspaces]
      · exact fun c hc => List.mem_takeWhile_imp hc
      · exact fun c hc => List.mem_takeWhile_imp hc
      · intro c hc
        have hhead := List.head?_dropWhile_not isDigit scanned.2
        rw [Option.mem_def.1 hc] at hhead
        simpa using hhead
      · rw [hnegative]
  · intro h
    obtain ⟨spaces, sign, digits, rfl, hspaces, hsign, ⟨hne, hdigits⟩, hrest, rfl⟩ := h
    obtain ⟨htake, hdrop⟩ := takeWhile_digits hdigits hrest
    cases digits with
    | nil => exact absurd rfl hne
    | cons d ds =>
        have hd := hdigits d (by simp)
        have hscan : scanSign ((spaces ++ (sign ++ (d :: ds ++ rest))).dropWhile isSpace) =
            (sign == [45], d :: ds ++ rest) := by
          rw [List.dropWhile_append_of_pos hspaces]
          simp only [List.mem_cons, List.not_mem_nil, or_false] at hsign
          rcases hsign with rfl | rfl | rfl
          · rw [List.nil_append, List.cons_append,
              List.dropWhile_cons_of_neg (by simp [isSpace_of_isDigit hd]),
              scanSign_of_isDigit hd]
            rfl
          · rfl
          · rfl
        simp only [scanUnsigned, hscan, htake, hdrop, reduceCtorEq, if_false]

/-- **The format** finds its two numbers in exactly these texts. -/
theorem sscanfSeekto_eq_some_iff {s : List UInt8} {x y : UInt32} :
    sscanfSeekto s = some (x, y) ↔
      ∃ text more rest, s = seektoPrefix ++ text ∧ Scans text x (44 :: more) ∧
        Scans more y rest := by
  unfold sscanfSeekto
  by_cases hbegins : seektoPrefix.isPrefixOf s = true
  · obtain ⟨text, rfl⟩ := List.isPrefixOf_iff_prefix.1 hbegins
    rw [if_pos hbegins, List.drop_left]
    constructor
    · intro h
      split at h
      · rename_i x' more hx
        obtain ⟨⟨y', rest⟩, hy, heq⟩ := Option.map_eq_some_iff.1 h
        obtain ⟨rfl, rfl⟩ := Prod.mk.inj heq
        exact ⟨text, more, rest, rfl, scanUnsigned_eq_some_iff.1 hx,
          scanUnsigned_eq_some_iff.1 hy⟩
      · cases h
    · intro h
      obtain ⟨text', more, rest, heq, hx, hy⟩ := h
      obtain rfl := List.append_cancel_left heq
      rw [scanUnsigned_eq_some_iff.2 hx]
      simp only [scanUnsigned_eq_some_iff.2 hy, Option.map_some]
  · rw [if_neg hbegins]
    constructor
    · intro h
      cases h
    · intro h
      obtain ⟨text, -, -, rfl, -⟩ := h
      exact absurd (List.isPrefixOf_iff_prefix.2 (List.prefix_append ..)) hbegins

/-- The packet begins with something that the format takes for a command: two numbers
behind the name, the first of them small, with a comma right behind it. -/
def ReadsCommand (packet : List UInt8) (seekto : AesdSeekto) : Prop :=
  ∃ text more rest, packet = seektoPrefix ++ text ∧ Scans text seekto.writeCmd (44 :: more) ∧
    Scans more seekto.writeCmdOffset rest ∧
    seekto.writeCmd.toNat < maxWriteOperationsSupported

/-- **The condition of line 220** holds for exactly these packets. -/
theorem seekCommand_eq_some_iff {packet : List UInt8} (hnul : 0 ∉ packet) {seekto : AesdSeekto} :
    seekCommand packet = some seekto ↔ ReadsCommand packet seekto := by
  rcases seekto with ⟨x, y⟩
  have hscan := sscanfSeekto_eq_some_iff (s := packet) (x := x) (y := y)
  rw [seekCommand, cString_of_not_mem hnul]
  constructor
  · intro h
    split at h
    · rename_i x' y' hread
      split at h
      · rename_i hsmall
        obtain ⟨rfl, rfl⟩ := AesdSeekto.mk.inj (Option.some.inj h)
        obtain ⟨text, more, rest, heq, hx, hy⟩ := hscan.1 hread
        exact ⟨text, more, rest, heq, hx, hy, hsmall⟩
      · cases h
    · cases h
  · intro h
    obtain ⟨text, more, rest, heq, hx, hy, hsmall⟩ := h
    simp only [hscan.2 ⟨text, more, rest, heq, hx, hy⟩]
    exact if_pos hsmall

/-! ## Plain commands -/

/-- **`%u` on digits.**  A number that fits is read as it stands. -/
theorem scanUnsigned_decimal {digits : List UInt8} (h : IsDecimal digits)
    (hfit : decimalValue digits < 2 ^ 64) {c : UInt8} (hc : isDigit c = false)
    (s : List UInt8) :
    scanUnsigned (digits ++ c :: s) = some (UInt32.ofNat (decimalValue digits), c :: s) := by
  rw [scanUnsigned_eq_some_iff]
  refine ⟨[], [], digits, rfl, by simp, by simp, h, by simpa using hc, ?_⟩
  have hsign : (([] : List UInt8) == [45]) = false := rfl
  simp only [strtoul, Nat.not_le.2 hfit, if_false, hsign, Bool.false_eq_true]

/-- A packet that does not begin like a command is not one. -/
theorem seekCommand_of_not_prefix {packet : List UInt8} (hnul : 0 ∉ packet)
    (h : ¬seektoPrefix <+: packet) : seekCommand packet = none := by
  have hbegins : seektoPrefix.isPrefixOf packet = false := by
    rw [← Bool.not_eq_true, List.isPrefixOf_iff_prefix]
    exact h
  simp [seekCommand, cString_of_not_mem hnul, sscanfSeekto, hbegins]

/-- **The command in plain decimal** is recognised with its two numbers. -/
theorem seekCommand_plain {xs ys : List UInt8} (hx : IsDecimal xs) (hy : IsDecimal ys)
    (hxv : decimalValue xs < maxWriteOperationsSupported) (hyv : decimalValue ys < 2 ^ 32)
    (hnul : 0 ∉ seektoPrefix ++ xs ++ 44 :: ys ++ [newline]) :
    seekCommand (seektoPrefix ++ xs ++ 44 :: ys ++ [newline]) =
      some { writeCmd := UInt32.ofNat (decimalValue xs)
             writeCmdOffset := UInt32.ofNat (decimalValue ys) } := by
  have hsmall : decimalValue xs < 10 := hxv
  have hbegins : seektoPrefix.isPrefixOf (seektoPrefix ++ xs ++ 44 :: ys ++ [newline]) =
      true := by
    rw [List.isPrefixOf_iff_prefix, List.append_assoc, List.append_assoc]
    exact List.prefix_append ..
  have hdrop : (seektoPrefix ++ xs ++ 44 :: ys ++ [newline]).drop seektoPrefix.length =
      xs ++ 44 :: (ys ++ [newline]) := by
    rw [List.append_assoc, List.append_assoc, List.drop_left' rfl]
    simp
  have hscanx := scanUnsigned_decimal hx (by omega) (c := 44) rfl (ys ++ [newline])
  have hscany := scanUnsigned_decimal hy (by omega) (c := newline) rfl []
  have hscan : sscanfSeekto (seektoPrefix ++ xs ++ 44 :: ys ++ [newline]) =
      some (UInt32.ofNat (decimalValue xs), UInt32.ofNat (decimalValue ys)) := by
    rw [sscanfSeekto, if_pos hbegins, hdrop, hscanx]
    simp only [hscany, Option.map_some]
  have hval : (UInt32.ofNat (decimalValue xs)).toNat = decimalValue xs :=
    UInt32.toNat_ofNat_of_lt' (by simp only [UInt32.size]; omega)
  simp only [seekCommand, cString_of_not_mem hnul, hscan, hval, hxv, if_true]

end Aesd.Server
