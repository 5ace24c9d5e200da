import Aesd.Server.SeekCommand

/-!
# The other reader of seek commands

`parse_seekto_command` reads the same numbers as the format of line 220, from the same
texts, and looks at what follows: it wants the end of the string.  The packets of
`data_processing` end in a newline, so it would refuse them all; with the newline taken
off, it takes the commands behind which nothing else comes.
-/

namespace Aesd.Server

open Aesd.Driver

/-! ## The function -/

/-- `strtoul(ptr, &endptr, 10)`: the value, and the string at `endptr`, which is `ptr` if
there is no number. -/
def strtoulFrom (ptr : List UInt8) : Nat × List UInt8 :=
  let (negative, s) := scanSign (ptr.dropWhile isSpace)
  let digits := s.takeWhile isDigit
  if digits = [] then (0, ptr) else (strtoul negative (decimalValue digits), s.dropWhile isDigit)

/-- `parse_seekto_command`, on a string and the values that are in `*cmd` and `*offset`
before: the value returned, and what is in them afterwards. -/
def parseSeektoCommand (str : List UInt8) (cmd offset : UInt32) : Int × UInt32 × UInt32 :=
  if seektoPrefix.isPrefixOf str = false then (0, cmd, offset)
  else
    let ptr := str.drop seektoPrefix.length
    let (value, endptr) := strtoulFrom ptr
    let cmd := UInt32.ofNat value
    if endptr = ptr ∨ endptr.head? ≠ some 44 then (0, cmd, offset)
    else
      let ptr := endptr.drop 1
      let (value, endptr) := strtoulFrom ptr
      let offset := UInt32.ofNat value
      if endptr = ptr ∨ endptr ≠ [] then (0, cmd, offset) else (1, cmd, offset)

/-! ## What it reads -/

/-- What is left behind a number is shorter than the string. -/
theorem length_lt_of_scanUnsigned {s rest : List UInt8} {value : UInt32}
    (h : scanUnsigned s = some (value, rest)) : rest.length < s.length := by
  obtain ⟨spaces, sign, digits, rfl, -, -, ⟨hne, -⟩, -, -⟩ := scanUnsigned_eq_some_iff.1 h
  have hpos := List.length_pos_of_ne_nil hne
  simp only [List.length_append]
  omega

/-- **`strtoul` reads what `%u` reads**, and its end pointer tells whether there was a
number. -/
theorem strtoulFrom_eq_iff {s rest : List UInt8} {value : UInt32} :
    (UInt32.ofNat (strtoulFrom s).1 = value ∧ (strtoulFrom s).2 = rest ∧
      (strtoulFrom s).2 ≠ s) ↔ Scans s value rest := by
  rw [← scanUnsigned_eq_some_iff]
  have hlt : ∀ value rest, scanUnsigned s = some (value, rest) → rest ≠ s := by
    rintro value rest h rfl
    exact absurd (length_lt_of_scanUnsigned h) (Nat.lt_irrefl _)
  simp only [scanUnsigned, strtoulFrom] at hlt ⊢
  split
  · simp
  · rename_i hdigits
    have hends := hlt _ _ (if_neg hdigits)
    simp [hends]

/-- **The texts that are accepted** are those that the format reads up to the end. -/
theorem parseSeektoCommand_eq_one_iff {str : List UInt8} {cmd offset x y : UInt32} :
    parseSeektoCommand str cmd offset = (1, x, y) ↔
      ∃ text more, str = seektoPrefix ++ text ∧ Scans text x (44 :: more) ∧ Scans more y [] := by
  unfold parseSeektoCommand
  by_cases hbegins : seektoPrefix.isPrefixOf str = true
  · obtain ⟨text, rfl⟩ := List.isPrefixOf_iff_prefix.1 hbegins
    rw [if_neg (by simp [hbegins]), List.drop_left]
    constructor
    · intro h
      simp only at h
      split at h
      · cases h
      · rename_i hcomma
        rw [not_or, not_not] at hcomma
        obtain ⟨hnumber, hcomma⟩ := hcomma
        obtain ⟨more, hmore⟩ : ∃ more, (strtoulFrom text).2 = 44 :: more :=
          ⟨_, List.eq_cons_of_mem_head? hcomma⟩
        rw [hmore, List.drop_one, List.tail_cons] at h
        split at h
        · cases h
        · rename_i hend
          rw [not_or, not_not] at hend
          obtain ⟨-, hx, hy⟩ : (1 : Int) = 1 ∧ UInt32.ofNat (strtoulFrom text).1 = x ∧
              UInt32.ofNat (strtoulFrom more).1 = y := by simpa using h
          exact ⟨text, more, rfl, strtoulFrom_eq_iff.1 ⟨hx, hmore, hnumber⟩,
            strtoulFrom_eq_iff.1 ⟨hy, hend.2, hend.1⟩⟩
    · rintro ⟨text', more, heq, hx, hy⟩
      obtain rfl := List.append_cancel_left heq
      obtain ⟨hxv, hxrest, hxnumber⟩ := strtoulFrom_eq_iff.2 hx
      obtain ⟨hyv, hyrest, hynumber⟩ := strtoulFrom_eq_iff.2 hy
      have hfirst : ¬((strtoulFrom text).2 = text ∨ (strtoulFrom text).2.head? ≠ some 44) := by
        rw [not_or, not_not]
        exact ⟨hxnumber, by rw [hxrest]; rfl⟩
      have hsecond : ¬((strtoulFrom more).2 = more ∨ (strtoulFrom more).2 ≠ []) := by
        rw [not_or, not_not]
        exact ⟨hynumber, hyrest⟩
      simp only
      rw [if_neg hfirst, hxrest, List.drop_one, List.tail_cons, if_neg hsecond, hxv, hyv]
  · rw [if_pos (Bool.not_eq_true _ ▸ hbegins)]
    constructor
    · intro h
      cases h
    · rintro ⟨text, -, rfl, -⟩
      exact absurd (List.isPrefixOf_iff_prefix.2 (List.prefix_append ..)) hbegins

theorem parseSeektoCommand_fst (str : List UInt8) (cmd offset : UInt32) :
    (parseSeektoCommand str cmd offset).1 = 0 ∨ (parseSeektoCommand str cmd offset).1 = 1 := by
  simp only [parseSeektoCommand]
  split
  · exact .inl rfl
  · split
    · exact .inl rfl
    · split
      · exact .inl rfl
      · exact .inr rfl

/-! ## The newline at the end -/

/-- A number is read alike when more follows that does not go on with a digit. -/
theorem scans_append {text rest behind : List UInt8} {value : UInt32}
    (hbehind : ∀ c ∈ behind.head?, isDigit c = false) :
    Scans (text ++ behind) value (rest ++ behind) ↔ Scans text value rest := by
  unfold Scans
  have hcut : ∀ spaces sign digits : List UInt8,
      text ++ behind = spaces ++ (sign ++ (digits ++ (rest ++ behind))) ↔
        text = spaces ++ (sign ++ (digits ++ rest)) := by
    intro spaces sign digits
    rw [← List.append_assoc digits, ← List.append_assoc sign, ← List.append_assoc spaces]
    exact List.append_left_inj behind
  have hhead : (∀ c ∈ (rest ++ behind).head?, isDigit c = false) ↔
      ∀ c ∈ rest.head?, isDigit c = false := by
    cases rest with
    | nil => simpa using hbehind
    | cons c rest => rfl
  simp only [hcut, hhead]

theorem Scans.exists_append {text rest behind : List UInt8} {value : UInt32}
    (h : Scans text value (rest ++ behind)) : ∃ front, text = front ++ behind := by
  obtain ⟨spaces, sign, digits, rfl, -⟩ := h
  exact ⟨spaces ++ (sign ++ (digits ++ rest)), by simp only [List.append_assoc]⟩

/-- A number at the end ends in a digit. -/
theorem Scans.getLast_isDigit {text : List UInt8} {value : UInt32} (h : Scans text value []) :
    ∃ c, text.getLast? = some c ∧ isDigit c = true := by
  obtain ⟨spaces, sign, digits, rfl, -, -, ⟨hne, hdigits⟩, -, -⟩ := h
  refine ⟨digits.getLast hne, ?_, hdigits _ (List.getLast_mem hne)⟩
  simp [List.getLast?_append, List.getLast?_eq_getLast_of_ne_nil hne]

/-- The packet is a command behind which nothing but the newline comes. -/
def ReadsWhole (packet : List UInt8) (seekto : AesdSeekto) : Prop :=
  ∃ text more, packet = seektoPrefix ++ text ∧ Scans text seekto.writeCmd (44 :: more) ∧
    Scans more seekto.writeCmdOffset [newline] ∧
    seekto.writeCmd.toNat < maxWriteOperationsSupported

theorem ReadsWhole.readsCommand {packet : List UInt8} {seekto : AesdSeekto}
    (h : ReadsWhole packet seekto) : ReadsCommand packet seekto := by
  obtain ⟨text, more, hpacket, hx, hy, hsmall⟩ := h
  exact ⟨text, more, [newline], hpacket, hx, hy, hsmall⟩

/-- **The two readers.**  On a packet with its newline, `parse_seekto_command` accepts
nothing.  On a packet without it, it accepts the commands behind which nothing else comes,
and with the numbers that line 220 makes out of them. -/
theorem parse_seekto_agrees {line : List UInt8} (hnul : 0 ∉ line) (cmd offset : UInt32) :
    (parseSeektoCommand (cString (line ++ [newline])) cmd offset).1 = 0 ∧
      ∀ seekto : AesdSeekto,
        (parseSeektoCommand (cString line) cmd offset =
              (1, seekto.writeCmd, seekto.writeCmdOffset) ∧
            seekto.writeCmd.toNat < maxWriteOperationsSupported ↔
          ReadsWhole (line ++ [newline]) seekto) ∧
        (ReadsWhole (line ++ [newline]) seekto →
          seekCommand (line ++ [newline]) = some seekto) := by
  have hnul' : 0 ∉ line ++ [newline] := by simpa [newline] using hnul
  rw [cString_of_not_mem hnul, cString_of_not_mem hnul']
  refine ⟨?_, fun seekto => ⟨?_, fun hreads => ?_⟩⟩
  · rcases parseSeektoCommand_fst (line ++ [newline]) cmd offset with hzero | hone
    · exact hzero
    · -- The last byte would have to be a digit.
      obtain ⟨text, more, heq, ⟨spaces, sign, digits, rfl, -⟩, hy⟩ :=
        parseSeektoCommand_eq_one_iff.1 (Prod.ext hone rfl)
      obtain ⟨c, hlast, hdigit⟩ := hy.getLast_isDigit
      have hsame := congrArg List.getLast? heq
      simp only [List.getLast?_append, List.getLast?_cons, hlast, Option.some_or,
        Option.getD_some, Option.some.injEq] at hsame
      rw [← hsame] at hdigit
      exact absurd hdigit (by decide)
  · have hbehind : ∀ c ∈ ([newline] : List UInt8).head?, isDigit c = false := by
      simp [newline, isDigit]
    rw [parseSeektoCommand_eq_one_iff]
    constructor
    · rintro ⟨⟨text, more, rfl, hx, hy⟩, hsmall⟩
      exact ⟨text ++ [newline], more ++ [newline], List.append_assoc ..,
        (scans_append hbehind).2 hx, (scans_append hbehind).2 hy, hsmall⟩
    · rintro ⟨text, more, heq, hx, hy, hsmall⟩
      -- The newline behind the second number is the one at the end of everything.
      have hend : Scans more seekto.writeCmdOffset ([] ++ [newline]) := hy
      obtain ⟨more, rfl⟩ := hend.exists_append
      have hcomma : Scans text seekto.writeCmd ((44 :: more) ++ [newline]) := hx
      obtain ⟨text, rfl⟩ := hcomma.exists_append
      rw [← List.append_assoc] at heq
      exact ⟨⟨text, more, List.append_cancel_right heq, (scans_append hbehind).1 hcomma,
        (scans_append hbehind).1 hend⟩, hsmall⟩
  · exact (seekCommand_eq_some_iff hnul').2 hreads.readsCommand

/-- The line of the command to seek to byte 3 of line 1. -/
theorem parse_seekto_agrees_plain :
    parseSeektoCommand (seektoPrefix ++ [49, 44, 51]) 0 0 = (1, 1, 3) ∧
      seekCommand (seektoPrefix ++ [49, 44, 51] ++ [newline]) = some ⟨1, 3⟩ := by
  have hall := (@parse_seekto_agrees (seektoPrefix ++ [49, 44, 51]) (by decide) 0 0).2 ⟨1, 3⟩
  have hparse : parseSeektoCommand (seektoPrefix ++ [49, 44, 51]) 0 0 = (1, 1, 3) := by decide
  exact ⟨hparse, hall.2 (hall.1.1 ⟨hparse, by decide⟩)⟩

end Aesd.Server
