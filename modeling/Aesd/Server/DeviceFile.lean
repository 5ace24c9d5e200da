import Aesd.Driver.ReadSlice

/-!
# The device file of a client handler

System calls on the open device file.  `read(2)` and `write(2)` pass the position
of the open file to the driver and store it back when the result is not negative;
`lseek(2)` and `ioctl(2)` leave the position to the driver.  `stream_file_reader`
reads the file in pieces of `BUFFER_SIZE - 1` bytes and sends each piece, however
the socket cuts it.
-/

namespace Aesd.Server

open Aesd.Driver
open Aesd.Verified.Segments

/-- `BUFFER_SIZE`. -/
def bufferSize : Nat := 1024

/-! ## System calls -/

/-- The device and one open file of it. -/
structure DeviceFile where
  kernel : Kernel
  file : File

namespace DeviceFile

/-- `read(2)`: the result, and the bytes put into the buffer.  The VFS refuses a count
that would carry the position beyond `loff_t` before it calls the driver; that is not
modelled. -/
def read (d : DeviceFile) (sched : Schedule) (count : Nat) : Int × List UInt8 × DeviceFile :=
  let r := aesdRead (d.kernel.enter sched) d.file count d.file.fPos
  (r.ret, r.delivered,
    { kernel := r.kernel
      file := if 0 ≤ r.ret then { d.file with fPos := r.pos } else d.file })

/-- `write(2)`.  `aesd_write` does not touch the position it is given. -/
def write (d : DeviceFile) (sched : Schedule) (buf : List UInt8) : Int × DeviceFile :=
  let r := aesdWrite (d.kernel.enter sched) d.file buf
  (r.1, { d with kernel := r.2 })

/-- `ioctl(2)`. -/
def ioctl (d : DeviceFile) (sched : Schedule) (cmd : Nat) (arg : AesdSeekto) :
    Int × DeviceFile :=
  let r := unlockedIoctl (d.kernel.enter sched) d.file cmd arg
  (r.1, { kernel := r.2.1, file := r.2.2 })

/-- `lseek(2)`. -/
def lseek (d : DeviceFile) (offset whence : Int) : Int × DeviceFile :=
  let r := aesdLlseek d.file offset whence
  (r.1, { d with file := r.2 })

/-- The last `close(2)` of the file. -/
def close (d : DeviceFile) (sched : Schedule) : DeviceFile :=
  let r := aesdRelease (d.kernel.enter sched) d.file
  { kernel := r.2.1, file := r.2.2 }

end DeviceFile

/-- `read(2)`, `write(2)`, `lseek(2)` and `ioctl(2)` with their arguments. -/
inductive FileOp
  | read (count : Nat)
  | write (chunk : List UInt8)
  | llseek (offset : Loff) (whence : Int)
  | ioctl (cmd : Nat) (arg : AesdSeekto)

/-- An operation on an open file, and how the kernel answers during it. -/
structure FileCall where
  sched : Schedule
  op : FileOp

/-- The operation on the device file: the value it returns, the bytes it delivers, and
the file it leaves. -/
def DeviceFile.perform (d : DeviceFile) (c : FileCall) : (Int × List UInt8) × DeviceFile :=
  match c.op with
  | .read count =>
      let r := d.read c.sched count
      ((r.1, r.2.1), r.2.2)
  | .write chunk =>
      let r := d.write c.sched chunk
      ((r.1, []), r.2)
  | .llseek offset whence =>
      let r := d.lseek offset whence
      ((r.1, []), r.2)
  | .ioctl cmd arg =>
      let r := d.ioctl c.sched cmd arg
      ((r.1, []), r.2)

/-! ## `stream_file_reader` -/

/-- The inner loop: send the bytes of one piece.  `send i` answers the `i`-th call
of `send`: nothing for an error, `some n` for a socket that takes up to `n + 1` bytes.
The result is what the socket took, and the number of calls made so far. -/
def sendPiece (send : Nat → Option Nat) : Nat → Nat → List UInt8 → List UInt8 × Nat
  | 0, sends, _ => ([], sends)
  | fuel + 1, sends, unsent =>
      if unsent = [] then ([], sends)
      else
        match send sends with
        | none => ([], sends + 1)
        | some n =>
            let rest := sendPiece send fuel (sends + 1) (unsent.drop (n + 1))
            (unsent.take (n + 1) ++ rest.1, rest.2)

/-- What `stream_file_reader` works on: the file, the calls made on it and on the
socket, and the bytes the socket has taken. -/
structure Stream where
  device : DeviceFile
  calls : Nat
  sends : Nat
  accepted : List UInt8

/-- `stream_file_reader`; nothing when the fuel does not suffice. -/
def streamFileReader (send : Nat → Option Nat) (sched : Nat → Schedule) :
    Nat → Stream → Option Stream
  | 0, _ => none
  | fuel + 1, s =>
      let (bytesRead, buffer, device) := s.device.read (sched s.calls) (bufferSize - 1)
      let s := { s with device := device, calls := s.calls + 1 }
      if 0 < bytesRead then
        let piece := sendPiece send bytesRead.toNat s.sends (buffer.take bytesRead.toNat)
        streamFileReader send sched fuel
          { s with sends := piece.2, accepted := s.accepted ++ piece.1 }
      else some s

/-! ## What they do -/

/-- A socket that never fails takes the whole piece. -/
theorem sendPiece_fst {send : Nat → Option Nat} (hsend : ∀ i, (send i).isSome) {fuel : Nat}
    (sends : Nat) (unsent : List UInt8) (hfuel : unsent.length ≤ fuel) :
    (sendPiece send fuel sends unsent).1 = unsent := by
  induction fuel generalizing sends unsent with
  | zero =>
      obtain rfl : unsent = [] := List.eq_nil_of_length_eq_zero (by omega)
      rfl
  | succ fuel ih =>
      by_cases hempty : unsent = []
      · rw [sendPiece, if_pos hempty, hempty]
      · obtain ⟨n, hn⟩ := Option.isSome_iff_exists.1 (hsend sends)
        have hpos := List.length_pos_of_ne_nil hempty
        have hrest := ih (sends + 1) (unsent.drop (n + 1))
          (by rw [List.length_drop]; omega)
        simp only [sendPiece, hempty, if_false, hn]
        rw [hrest, List.take_append_drop]

/-- A file that is open on a sound device, at a position that is not negative. -/
structure DeviceFile.Ready (d : DeviceFile) (p : Nat) : Prop where
  sound : Sound d.kernel
  opened : d.file.privateData = true
  fPos : d.file.fPos = p

/-- A file that has just been opened. -/
theorem DeviceFile.ready_opened {k : Kernel} (h : Sound k) :
    DeviceFile.Ready { kernel := k, file := .opened } 0 :=
  { sound := h, opened := rfl, fPos := rfl }

/-- The result of a read that has delivered `bytes` from position `p` on and stands behind
them. -/
structure DeviceFile.Reads (d : DeviceFile) (p : Nat) (bytes : List UInt8)
    (result : Int × List UInt8 × DeviceFile) : Prop where
  ret : result.1 = bytes.length
  delivered : result.2.1 = bytes
  ready : result.2.2.Ready (p + bytes.length)
  log : Driver.log result.2.2.kernel = Driver.log d.kernel

/-- A `read(2)` that reports no error delivers the next bytes of the stored lines and
moves on. -/
theorem DeviceFile.Ready.read_of_nonneg {d : DeviceFile} {p : Nat} (h : d.Ready p)
    (hp : p < 2 ^ 63) {sched : Schedule} (hreal : sched.Realistic) (count : Nat)
    (hret : 0 ≤ (d.read sched count).1) {bytes : List UInt8}
    (hbytes : bytes = ((log d.kernel).contents.drop p).take count) :
    d.Reads p bytes (d.read sched count) := by
  obtain ⟨hspec, hlog⟩ := h.sound.aesdRead sched h.opened count p (by omega) (by omega)
  have hloff : -2 ^ 63 ≤ (p : Int) ∧ (p : Int) < 2 ^ 63 := by omega
  have hsound := exec_sound h.sound (c := ⟨sched, d.file, .read count ⟨p, hloff⟩⟩) hreal
  simp only [DeviceFile.read, h.fPos] at hret ⊢
  have hnofault : (readEntries sched.copy 0
      (segmentsFrom (log d.kernel).entries (toSize p)) count).2 ≠ .fault := by
    intro hfault
    rw [hspec.ret, if_pos hfault] at hret
    exact absurd hret (by decide)
  have hwalk : (readEntries sched.copy 0
      (segmentsFrom (log d.kernel).entries (toSize p)) count).1 = bytes := by
    rw [readEntries_fst hnofault, flatten_segmentsFrom,
      toSize_natCast (by rw [sizeMod]; omega), hbytes]
    rfl
  have hret' := hspec.ret
  have hpos := hspec.pos
  have hdelivered := hspec.delivered
  rw [if_neg hnofault, hwalk, List.nil_append] at hret'
  rw [hwalk] at hpos
  rw [hwalk, List.nil_append] at hdelivered
  refine ⟨hret', hdelivered, ⟨hsound, ?_, ?_⟩, hlog⟩
  · rw [if_pos hret]
    exact h.opened
  · rw [if_pos hret]
    exact hpos.trans (Int.natCast_add _ _).symm

/-- **`read(2)`** delivers the next bytes of the stored lines and moves on. -/
theorem DeviceFile.Ready.read {d : DeviceFile} {p : Nat} (h : d.Ready p) (hp : p < 2 ^ 63)
    {sched : Schedule} (hreal : sched.Realistic) (hcopy : ∀ i, sched.copy i = true)
    (count : Nat) {bytes : List UInt8}
    (hbytes : bytes = ((log d.kernel).contents.drop p).take count) :
    d.Reads p bytes (d.read sched count) := by
  have hret := (h.sound.read_delivers hcopy h.opened count p hp).2.1
  refine h.read_of_nonneg hp hreal count ?_ hbytes
  rw [DeviceFile.read, h.fPos, hret]
  exact Int.natCast_nonneg _

/-- **`write(2)`** changes the line log as its outcome says, and not the position. -/
theorem DeviceFile.Ready.write {d : DeviceFile} {p : Nat} (h : d.Ready p) {sched : Schedule}
    (hreal : sched.Realistic) (buf : List UInt8) :
    (d.write sched buf).2.Ready p ∧
      log (d.write sched buf).2.kernel =
        (writeOutcome sched (log d.kernel) buf).log (log d.kernel) buf := by
  have hsound := exec_sound h.sound (c := ⟨sched, d.file, .write buf⟩) hreal
  obtain ⟨-, hlog, -⟩ := exec_spec h.sound (c := ⟨sched, d.file, .write buf⟩) hreal
  simp only [Call.effect, h.opened, if_true] at hlog
  exact ⟨⟨hsound, h.opened, h.fPos⟩, hlog⟩

/-- `ioctl(2)` moves to the byte the command names, if there is one and the command can
be copied. -/
theorem DeviceFile.Ready.ioctl_or_fault {d : DeviceFile} {p : Nat} (h : d.Ready p)
    {sched : Schedule} (hreal : sched.Realistic) (arg : AesdSeekto) :
    (d.ioctl sched AESDCHAR_IOCSEEKTO arg).2.Ready (if sched.copy 0 then
        ((log d.kernel).seekTarget arg.writeCmd.toNat arg.writeCmdOffset.toNat).getD p else p) ∧
      log (d.ioctl sched AESDCHAR_IOCSEEKTO arg).2.kernel = log d.kernel := by
  obtain ⟨pend, own, pending, hrep⟩ := h.sound.rep
  have hentries : linesOf own = (log d.kernel).entries := hrep.log_entries.symm
  have hspec := aesdIoctlSetPos_spec (hrep.enter sched)
    (by rw [hentries]; exact h.sound.wf.contents_lt) d.file arg
  have hlogk : log (d.kernel.enter sched) = log d.kernel :=
    (hrep.enter sched).log_eq.trans hrep.log_eq.symm
  have hfile := hspec.file
  rw [show (d.kernel.enter sched).call.sched.copy (d.kernel.enter sched).call.copies =
    sched.copy 0 from rfl, hlogk] at hfile
  have hsound := exec_sound h.sound (c := ⟨sched, d.file, .ioctl AESDCHAR_IOCSEEKTO arg⟩) hreal
  obtain ⟨-, hlog, -⟩ :=
    exec_spec h.sound (c := ⟨sched, d.file, .ioctl AESDCHAR_IOCSEEKTO arg⟩) hreal
  have hioctl : (d.ioctl sched AESDCHAR_IOCSEEKTO arg).2.file =
      (aesdIoctlSetPos (d.kernel.enter sched) d.file arg).2.2 := by
    simp [DeviceFile.ioctl, unlockedIoctl, h.opened]
  refine ⟨⟨hsound, ?_, ?_⟩, hlog⟩
  · rw [hioctl, hfile]
    split <;> exact h.opened
  · rw [hioctl, hfile]
    cases sched.copy 0 with
    | false => exact h.fPos
    | true =>
        rw [h.fPos]
        cases (log d.kernel).seekTarget arg.writeCmd.toNat arg.writeCmdOffset.toNat <;> rfl

/-- **`ioctl(2)`** moves to the byte the command names, if there is one. -/
theorem DeviceFile.Ready.ioctl {d : DeviceFile} {p : Nat} (h : d.Ready p) {sched : Schedule}
    (hreal : sched.Realistic) (hcopy : sched.copy 0 = true) (arg : AesdSeekto) :
    (d.ioctl sched AESDCHAR_IOCSEEKTO arg).2.Ready
        (((log d.kernel).seekTarget arg.writeCmd.toNat arg.writeCmdOffset.toNat).getD p) ∧
      log (d.ioctl sched AESDCHAR_IOCSEEKTO arg).2.kernel = log d.kernel := by
  have hioctl := h.ioctl_or_fault hreal arg
  rwa [hcopy, if_pos rfl] at hioctl

/-- **`close(2)`** keeps what is stored. -/
theorem DeviceFile.close_spec {d : DeviceFile} (h : Sound d.kernel) {sched : Schedule}
    (hreal : sched.Realistic) :
    Sound (d.close sched).kernel ∧ log (d.close sched).kernel = log d.kernel :=
  ⟨exec_sound h (c := ⟨sched, d.file, .release⟩) hreal,
    (exec_spec h (c := ⟨sched, d.file, .release⟩) hreal).2.1⟩

/-- Asking for the position changes nothing. -/
theorem DeviceFile.Ready.lseek_cur {d : DeviceFile} {p : Nat} (h : d.Ready p) (hp : p < 2 ^ 63) :
    (d.lseek 0 SEEK_CUR).2 = d := by
  obtain ⟨kernel, file⟩ := d
  obtain ⟨privateData, fPos⟩ := file
  have hpos : fPos = p := h.fPos
  have hopen : privateData = true := h.opened
  subst hpos hopen
  have hwrap : wrap64 p = p := wrap64_of_range (by omega) (by omega)
  have hpos : ¬(p : Int) < 0 := by omega
  simp [DeviceFile.lseek, aesdLlseek, SEEK_CUR, SEEK_SET, hwrap, hpos]

/-- The next piece of the stored bytes, and what is left behind it. -/
theorem take_append_drop_piece (contents : List UInt8) (p n : Nat) :
    ((contents.drop p).take n) ++ contents.drop (p + ((contents.drop p).take n).length) =
      contents.drop p := by
  rw [← List.drop_drop]
  exact List.prefix_iff_eq_append.1 (List.take_prefix n (contents.drop p))

/-- **`stream_file_reader`.**  When nothing fails, the socket takes everything that
is stored from the position on. -/
theorem streamFileReader_spec {send : Nat → Option Nat} (hsend : ∀ i, (send i).isSome)
    {sched : Nat → Schedule} (hreal : ∀ i, (sched i).Realistic)
    (hcopy : ∀ i j, (sched i).copy j = true) {s : Stream} {p : Nat} (h : s.device.Ready p)
    (hp : p ≤ (log s.device.kernel).contents.length) {fuel : Nat}
    (hfuel : (log s.device.kernel).contents.length - p < fuel) :
    ∃ s', streamFileReader send sched fuel s = some s' ∧
      s'.accepted = s.accepted ++ (log s.device.kernel).contents.drop p ∧
      s'.device.Ready (log s.device.kernel).contents.length ∧
      log s'.device.kernel = log s.device.kernel := by
  induction fuel generalizing s p with
  | zero => omega
  | succ fuel ih =>
      have hlt := h.sound.wf.contents_lt
      obtain ⟨hret, hbytes, hready, hlog⟩ := h.read (by omega) (hreal s.calls)
        (hcopy s.calls) (bufferSize - 1) rfl
      generalize hpiece : ((log s.device.kernel).contents.drop p).take (bufferSize - 1) = piece
        at hret hbytes hready
      have hlen := congrArg List.length hpiece
      simp only [List.length_take, List.length_drop, bufferSize] at hlen
      simp only [streamFileReader]
      rw [hret, hbytes, Int.toNat_natCast, List.take_length]
      by_cases hend : piece = []
      · subst hend
        have hall : (log s.device.kernel).contents.length = p := by
          simp only [List.length_nil] at hlen
          omega
        rw [if_neg (by simp)]
        refine ⟨_, rfl, ?_, ?_, hlog⟩
        · rw [List.drop_eq_nil_of_le hall.le, List.append_nil]
        · rw [hall]
          exact hready
      · have hpos := List.length_pos_of_ne_nil hend
        rw [if_pos (Int.natCast_pos.2 hpos), sendPiece_fst hsend s.sends piece (Nat.le_refl _)]
        have hrest := ih (s := {
            device := (s.device.read (sched s.calls) (bufferSize - 1)).2.2
            calls := s.calls + 1
            sends := (sendPiece send piece.length s.sends piece).2
            accepted := s.accepted ++ piece })
          hready (by rw [hlog]; omega) (by rw [hlog]; omega)
        rw [hlog] at hrest
        obtain ⟨s', hrun, haccepted, hready', hlog'⟩ := hrest
        refine ⟨s', hrun, ?_, hready', hlog'⟩
        have hdrop := take_append_drop_piece (log s.device.kernel).contents p (bufferSize - 1)
        rw [hpiece] at hdrop
        rw [haccepted, ← hdrop, List.append_assoc]

end Aesd.Server
