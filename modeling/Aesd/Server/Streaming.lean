import Aesd.Server.DeviceFile
import Aesd.Verified.Delivery

/-!
# The streamed answer

`stream_file_reader` on any device: what matters of the device is what its reads return.
Each call of `send` offers a fragment of the content and the socket takes the front of
it.  An error ends the sending of the piece at hand and not the reading, so the answer is
gapless exactly when the sends of all later pieces fail as well.
-/

namespace Aesd.Server

open Aesd.Driver
open Aesd.Verified.Delivery

variable {δ : Type} {send : Nat → Option Nat}

/-! ## The calls of `send` -/

/-- The calls of `send` that the inner loop makes for the bytes `unsent`, which stand at
position `start` of the content; `calls` have been made before. -/
def sendCalls (send : Nat → Option Nat) : Nat → Nat → Nat → List UInt8 → List (Fragment UInt8)
  | 0, _, _, _ => []
  | fuel + 1, calls, start, unsent =>
      if unsent = [] then []
      else
        match send calls with
        | none => [{ start := start, taken := [] }]
        | some n =>
            let taken := unsent.take (n + 1)
            { start := start, taken := taken } ::
              sendCalls send fuel (calls + 1) (start + taken.length) (unsent.drop (n + 1))

/-- `stream_file_reader` on a device whose reads are `read`, with the fragments it offers
to the socket; nothing when the fuel does not suffice. -/
def streamFrom (read : δ → Int × List UInt8 × δ) (send : Nat → Option Nat) :
    Nat → δ → Nat → Nat → Option (List (Fragment UInt8))
  | 0, _, _, _ => none
  | fuel + 1, d, calls, start =>
      let (bytesRead, buffer, d) := read d
      if 0 < bytesRead then
        let sent := sendCalls send bytesRead.toNat calls start (buffer.take bytesRead.toNat)
        (streamFrom read send fuel d (calls + sent.length) (start + bytesRead.toNat)).map
          (sent ++ ·)
      else some []

/-- The fragments name what `sendPiece` sends, call by call. -/
theorem sendPiece_eq (send : Nat → Option Nat) (fuel calls start : Nat) (unsent : List UInt8) :
    sendPiece send fuel calls unsent =
      (delivered (sendCalls send fuel calls start unsent),
        calls + (sendCalls send fuel calls start unsent).length) := by
  induction fuel generalizing calls start unsent with
  | zero => rfl
  | succ fuel ih =>
      by_cases hempty : unsent = []
      · simp [sendPiece, sendCalls, hempty]
      · cases hsend : send calls with
        | none => simp [sendPiece, sendCalls, hempty, hsend]
        | some n =>
            simp only [sendPiece, sendCalls, hempty, if_false, hsend, delivered_cons,
              List.length_cons]
            rw [ih (calls + 1) (start + (unsent.take (n + 1)).length)]
            simp only [Prod.mk.injEq, true_and]
            omega

/-- The reads of the device file, the calls on it numbered. -/
def deviceRead (sched : Nat → Schedule) (d : DeviceFile × Nat) :
    Int × List UInt8 × DeviceFile × Nat :=
  let r := d.1.read (sched d.2) (bufferSize - 1)
  (r.1, r.2.1, r.2.2, d.2 + 1)

/-- On the device file, the socket takes what the fragments bring. -/
theorem streamFileReader_accepted (send : Nat → Option Nat) (sched : Nat → Schedule)
    (fuel start : Nat) (s : Stream) :
    (streamFileReader send sched fuel s).map Stream.accepted =
      (streamFrom (deviceRead sched) send fuel (s.device, s.calls) s.sends start).map
        fun fragments => s.accepted ++ delivered fragments := by
  induction fuel generalizing s start with
  | zero => rfl
  | succ fuel ih =>
      simp only [streamFileReader, streamFrom, deviceRead]
      by_cases hmore : 0 < (s.device.read (sched s.calls) (bufferSize - 1)).1
      · simp only [hmore, if_true]
        rw [sendPiece_eq send _ s.sends start, ih, Option.map_map]
        congr 1
        funext fragments
        simp
      · simp [hmore]

/-! ## A device that returns pieces -/

/-- From `d` on, the reads return the pieces one by one, none of them empty, and then
nothing more. -/
def Returns (read : δ → Int × List UInt8 × δ) : δ → List (List UInt8) → Prop
  | d, [] => (read d).1 ≤ 0
  | d, piece :: pieces =>
      piece ≠ [] ∧ (read d).1 = piece.length ∧ (read d).2.1 = piece ∧
        Returns read (read d).2.2 pieces

theorem Returns.ne_nil {read : δ → Int × List UInt8 × δ} {d : δ} {pieces : List (List UInt8)}
    (h : Returns read d pieces) : ∀ piece ∈ pieces, piece ≠ [] := by
  induction pieces generalizing d with
  | nil => simp
  | cons piece pieces ih => exact List.forall_mem_cons.2 ⟨h.1, ih h.2.2.2⟩

/-- The fragments offered for the pieces. -/
def pieceCalls (send : Nat → Option Nat) :
    List (List UInt8) → Nat → Nat → List (Fragment UInt8)
  | [], _, _ => []
  | piece :: pieces, calls, start =>
      let sent := sendCalls send piece.length calls start piece
      sent ++ pieceCalls send pieces (calls + sent.length) (start + piece.length)

/-- `stream_file_reader` ends behind the last piece. -/
theorem streamFrom_returns (send : Nat → Option Nat) {read : δ → Int × List UInt8 × δ} {d : δ}
    {pieces : List (List UInt8)} (h : Returns read d pieces) {fuel : Nat}
    (hfuel : pieces.length < fuel) (calls start : Nat) :
    streamFrom read send fuel d calls start = some (pieceCalls send pieces calls start) := by
  induction fuel generalizing d pieces calls start with
  | zero => exact absurd hfuel (Nat.not_lt_zero _)
  | succ fuel ih =>
      cases pieces with
      | nil =>
          have hend : ¬0 < (read d).1 := not_lt.2 h
          simp only [streamFrom, hend, if_false, pieceCalls]
      | cons piece pieces =>
          rcases h with ⟨hne, hret, hbytes, hrest⟩
          have hpos := List.length_pos_of_ne_nil hne
          simp only [streamFrom, pieceCalls, hret, hbytes, Int.natCast_pos, hpos, if_true,
            Int.toNat_natCast, List.take_length]
          rw [ih hrest (Nat.lt_of_succ_lt_succ hfuel), Option.map_some]

/-! ## The device file returns pieces -/

/-- **The device file returns slices** of what is stored from its position on, until it is
at the end or a copy fails. -/
theorem DeviceFile.Ready.returns {sched : Nat → Schedule} (hreal : ∀ i, (sched i).Realistic)
    {d : DeviceFile} {p n : Nat} (h : d.Ready p) (hp : p ≤ (log d.kernel).contents.length)
    (hn : (log d.kernel).contents.length - p ≤ n) (calls : Nat) :
    ∃ pieces, Returns (deviceRead sched) (d, calls) pieces ∧ pieces.length ≤ n ∧
      pieces.flatten <+: (log d.kernel).contents.drop p := by
  have hlt := h.sound.wf.contents_lt
  induction n generalizing d p calls with
  | zero =>
      have hend : (log d.kernel).contents.drop p = [] := List.drop_eq_nil_of_le (by omega)
      refine ⟨[], ?_, Nat.le_refl 0, List.nil_prefix⟩
      show (d.read (sched calls) (bufferSize - 1)).1 ≤ 0
      by_contra hmore
      have hread := h.read_of_nonneg (by omega) (hreal calls) (bufferSize - 1) (by omega) rfl
      rw [hread.ret, hend] at hmore
      exact hmore (Int.le_refl 0)
  | succ n ih =>
      by_cases hmore : 0 < (d.read (sched calls) (bufferSize - 1)).1
      · obtain ⟨hret, hbytes, hready, hlog⟩ := h.read_of_nonneg (by omega) (hreal calls)
          (bufferSize - 1) hmore.le rfl
        have hdrop := take_append_drop_piece (log d.kernel).contents p (bufferSize - 1)
        generalize ((log d.kernel).contents.drop p).take (bufferSize - 1) = piece at *
        have hpos : 0 < piece.length := by omega
        have hlen := congrArg List.length hdrop
        simp only [List.length_append, List.length_drop] at hlen
        rcases ih hready (by rw [hlog]; omega) (by rw [hlog]; omega) (calls + 1)
          (by rw [hlog]; exact hlt) with ⟨pieces, hrest, hcount, hbegins⟩
        rw [hlog] at hbegins
        refine ⟨piece :: pieces, ⟨List.ne_nil_of_length_pos hpos, hret, hbytes, hrest⟩, ?_, ?_⟩
        · rw [List.length_cons]
          omega
        · rw [List.flatten_cons, ← hdrop, List.prefix_append_right_inj]
          exact hbegins
      · exact ⟨[], not_lt.1 hmore, Nat.zero_le _, List.nil_prefix⟩

/-- **The streaming ends**, whatever the socket and the copies do. -/
theorem streamFileReader_ends (send : Nat → Option Nat) {sched : Nat → Schedule}
    (hreal : ∀ i, (sched i).Realistic) {s : Stream} {p fuel : Nat} (h : s.device.Ready p)
    (hp : p ≤ (log s.device.kernel).contents.length)
    (hfuel : (log s.device.kernel).contents.length - p < fuel) :
    (streamFileReader send sched fuel s).isSome := by
  rcases h.returns hreal hp (Nat.le_refl _) s.calls with ⟨pieces, hreturns, hcount, -⟩
  have hrun := streamFrom_returns send hreturns (Nat.lt_of_le_of_lt hcount hfuel)
    s.sends p
  have haccepted := streamFileReader_accepted send sched fuel p s
  rw [hrun, Option.map_some] at haccepted
  rw [← Option.isSome_map, haccepted]
  rfl

/-! ## Fragments of one piece -/

/-- Whether the sends from call `calls` on get `n` bytes through, and the call behind the
last one made. -/
def sendsThrough (send : Nat → Option Nat) : Nat → Nat → Nat → Bool × Nat
  | 0, calls, _ => (true, calls)
  | fuel + 1, calls, n =>
      if n = 0 then (true, calls)
      else
        match send calls with
        | none => (false, calls + 1)
        | some m => sendsThrough send fuel (calls + 1) (n - (m + 1))

/-- When no send fails, every byte gets through. -/
theorem sendsThrough_of_isSome (hsend : ∀ i, (send i).isSome) {fuel n : Nat} (hfuel : n ≤ fuel)
    (calls : Nat) : (sendsThrough send fuel calls n).1 = true := by
  induction fuel generalizing n calls with
  | zero => rfl
  | succ fuel ih =>
      by_cases hn : n = 0
      · simp [sendsThrough, hn]
      · rcases Option.isSome_iff_exists.1 (hsend calls) with ⟨m, hm⟩
        simp only [sendsThrough, hn, if_false, hm]
        exact ih (by omega) (calls + 1)

/-- What the inner loop does with one piece at position `start`. -/
structure PieceSpec (calls start : Nat) (piece : List UInt8) (through : Bool × Nat)
    (sent : List (Fragment UInt8)) : Prop where
  chained : Chained start sent
  cut : ∀ f ∈ sent, start ≤ f.start ∧ f.taken <+: piece.drop (f.start - start)
  next : calls + sent.length = through.2
  whole : through.1 = true → delivered sent = piece
  short : through.1 = false → (delivered sent).length < piece.length

/-- **One piece.** -/
theorem sendCalls_spec (send : Nat → Option Nat) {fuel : Nat} (calls start : Nat)
    {piece : List UInt8} (hfuel : piece.length ≤ fuel) :
    PieceSpec calls start piece (sendsThrough send fuel calls piece.length)
      (sendCalls send fuel calls start piece) := by
  induction fuel generalizing calls start piece with
  | zero =>
      obtain rfl : piece = [] := List.eq_nil_of_length_eq_zero (by omega)
      exact
        { chained := trivial, cut := by simp [sendCalls], next := rfl, whole := fun _ => rfl
          short := by simp [sendsThrough] }
  | succ fuel ih =>
      by_cases hempty : piece = []
      · subst hempty
        exact
          { chained := trivial, cut := by simp [sendCalls], next := rfl, whole := fun _ => rfl
            short := by simp [sendsThrough] }
      have hpos := List.length_pos_of_ne_nil hempty
      have hnonzero : piece.length ≠ 0 := by omega
      rw [sendCalls, sendsThrough, if_neg hempty, if_neg hnonzero]
      cases hsend : send calls with
      | none =>
          exact
            { chained := ⟨fun hne => absurd rfl hne, trivial⟩
              cut := by simp
              next := rfl
              whole := by simp
              short := fun _ => by simpa using hpos }
      | some n =>
          have hfuel' : (piece.drop (n + 1)).length ≤ fuel := by
            rw [List.length_drop]
            omega
          have hrest := ih (calls + 1) (start + (piece.take (n + 1)).length) hfuel'
          have hbehind : piece.drop (n + 1) = piece.drop (piece.take (n + 1)).length := by
            rw [List.length_take]
            rcases Nat.le_total (n + 1) piece.length with hle | hle
            · rw [Nat.min_eq_left hle]
            · rw [Nat.min_eq_right hle, List.drop_length, List.drop_eq_nil_of_le hle]
          have hwhole : piece.take (n + 1) ++ piece.drop (n + 1) = piece :=
            List.take_append_drop ..
          have hlen := congrArg List.length hwhole
          rw [List.length_append] at hlen
          simp only
          rw [← show (piece.drop (n + 1)).length = piece.length - (n + 1) from List.length_drop]
          exact
            { chained := ⟨fun _ => rfl, hrest.chained⟩
              cut := by
                intro f hf
                rcases List.mem_cons.1 hf with rfl | hf
                · exact ⟨Nat.le_refl _, by simpa using List.take_prefix (n + 1) piece⟩
                · obtain ⟨hle, hcut⟩ := hrest.cut f hf
                  rw [hbehind, List.drop_drop] at hcut
                  constructor
                  · omega
                  · rwa [show f.start - start = (piece.take (n + 1)).length +
                      (f.start - (start + (piece.take (n + 1)).length)) by omega]
              next := by
                rw [← hrest.next, List.length_cons]
                omega
              whole := fun hthrough => by rw [delivered_cons, hrest.whole hthrough, hwhole]
              short := fun hfail => by
                have hlt := hrest.short hfail
                rw [delivered_cons, List.length_append, ← hlen]
                exact Nat.add_lt_add_left hlt _ }

/-! ## When the answer has no hole -/

/-- The pieces, given by their sizes, go through up to the first failing send, and from
there on the send for every later piece fails. -/
def StopsForGood (send : Nat → Option Nat) : Nat → List Nat → Prop
  | _, [] => True
  | calls, n :: sizes =>
      let through := sendsThrough send n calls n
      if through.1 then StopsForGood send through.2 sizes
      else ∀ i < sizes.length, send (through.2 + i) = none

/-- A piece that does not get through has been stopped by the last send made for it. -/
theorem sendsThrough_failed {fuel n calls : Nat}
    (h : (sendsThrough send fuel calls n).1 = false) :
    ∃ i, (sendsThrough send fuel calls n).2 = i + 1 ∧ send i = none := by
  induction fuel generalizing n calls with
  | zero => cases h
  | succ fuel ih =>
      rw [sendsThrough] at h ⊢
      by_cases hn : n = 0
      · rw [if_pos hn] at h
        cases h
      · rw [if_neg hn] at h ⊢
        cases hsend : send calls with
        | none => exact ⟨calls, rfl, hsend⟩
        | some m =>
            simp only [hsend] at h
            exact ih h

/-- A socket whose errors last stops for good. -/
theorem stopsForGood_of_lasting (hlasting : ∀ i, send i = none → send (i + 1) = none)
    (calls : Nat) (sizes : List Nat) : StopsForGood send calls sizes := by
  induction sizes generalizing calls with
  | nil => trivial
  | cons n sizes ih =>
      rw [StopsForGood]
      cases hthrough : (sendsThrough send n calls n).1 with
      | true => exact ih _
      | false =>
          rcases sendsThrough_failed hthrough with ⟨i, hnext, hfailed⟩
          have hlater : ∀ j, send (i + 1 + j) = none := by
            intro j
            induction j with
            | zero => exact hlasting i hfailed
            | succ j ihj => exact hlasting _ ihj
          rw [hnext]
          exact fun j _ => hlater j

/-- Behind a hole, the delivery stays gapless only when nothing more is taken. -/
theorem chained_behind_hole {pieces : List (List UInt8)} (hne : ∀ piece ∈ pieces, piece ≠ [])
    {p start : Nat} (hp : p < start) (calls : Nat) :
    Chained p (pieceCalls send pieces calls start) ↔
      ∀ i < pieces.length, send (calls + i) = none := by
  induction pieces generalizing start calls with
  | nil => simp [pieceCalls, Chained]
  | cons piece pieces ih =>
      have hpiece := hne piece (by simp)
      have hpos := List.length_pos_of_ne_nil hpiece
      have hsize : piece.length = (piece.length - 1) + 1 := by omega
      rw [pieceCalls, List.length_cons, Nat.forall_lt_succ_left, hsize, sendCalls, if_neg hpiece,
        ← hsize]
      cases hsend : send calls with
      | none =>
          have hlater : p < start + piece.length := by omega
          have hrest := ih (fun q hq => hne q (by simp [hq])) hlater (calls + 1)
          simp only [List.cons_append, List.nil_append, List.length_singleton, Chained,
            List.length_nil, Nat.add_zero, ne_eq, not_true_eq_false, false_implies,
            true_and, hrest, Nat.add_assoc, Nat.add_comm 1]
      | some n =>
          have htaken : piece.take (n + 1) ≠ [] := by simp [hpiece]
          have hhole : start ≠ p := by omega
          simp [Chained, htaken, hhole]

/-- **The fragments of the pieces** follow each other exactly when the first failure to
get a piece through is the end of the sending. -/
theorem chained_pieceCalls_iff {pieces : List (List UInt8)}
    (hne : ∀ piece ∈ pieces, piece ≠ []) (calls start : Nat) :
    Chained start (pieceCalls send pieces calls start) ↔
      StopsForGood send calls (pieces.map List.length) := by
  induction pieces generalizing calls start with
  | nil => simp [pieceCalls, Chained, StopsForGood]
  | cons piece pieces ih =>
      have hrest : ∀ q ∈ pieces, q ≠ [] := fun q hq => hne q (by simp [hq])
      have hspec := sendCalls_spec send calls start (Nat.le_refl piece.length)
      rw [pieceCalls, chained_append, and_iff_right hspec.chained, hspec.next, List.map_cons,
        StopsForGood]
      cases hthrough : (sendsThrough send piece.length calls piece.length).1 with
      | true =>
          rw [hspec.whole hthrough, ih hrest]
          simp
      | false =>
          have hhole := hspec.short hthrough
          rw [chained_behind_hole hrest (by omega)]
          simp

/-! ## What the fragments bring -/

/-- Each fragment is cut out of the content where it starts. -/
theorem pieceCalls_cut {pieces : List (List UInt8)} (calls start : Nat)
    {f : Fragment UInt8} (hf : f ∈ pieceCalls send pieces calls start) :
    start ≤ f.start ∧ f.taken <+: pieces.flatten.drop (f.start - start) := by
  induction pieces generalizing calls start with
  | nil => cases hf
  | cons piece pieces ih =>
      have hspec := sendCalls_spec send calls start (Nat.le_refl piece.length)
      rw [pieceCalls, List.mem_append] at hf
      rw [List.flatten_cons]
      rcases hf with hf | hf
      · have hcut := hspec.cut f hf
        constructor
        · exact hcut.1
        · rw [List.drop_append]
          exact hcut.2.trans (List.prefix_append ..)
      · have hcut := ih _ _ hf
        constructor
        · omega
        · rw [show f.start - start = piece.length + (f.start - (start + piece.length)) by omega,
            List.drop_length_add_append]
          exact hcut.2

/-- When no send fails, the fragments bring everything. -/
theorem delivered_pieceCalls (hsend : ∀ i, (send i).isSome) (pieces : List (List UInt8))
    (calls start : Nat) : delivered (pieceCalls send pieces calls start) = pieces.flatten := by
  induction pieces generalizing calls start with
  | nil => rfl
  | cons piece pieces ih =>
      have hspec := sendCalls_spec send calls start (Nat.le_refl piece.length)
      have hthrough := sendsThrough_of_isSome hsend (Nat.le_refl piece.length) calls
      rw [pieceCalls, delivered_append, hspec.whole hthrough, ih, List.flatten_cons]

/-- **The streamed answer.**  On every device and with every socket, the answer arrives
without a hole, and whole if no send fails, exactly when the first failure to get a piece
through is the end of the sending. -/
theorem answer_gapless_iff (read : δ → Int × List UInt8 × δ) (send : Nat → Option Nat) (d : δ)
    (pieces : List (List UInt8)) (h : Returns read d pieces) :
    ∃ fragments, (∀ fuel > pieces.length, streamFrom read send fuel d 0 0 = some fragments) ∧
      ((Gapless pieces.flatten fragments ∧
          ((∀ i, (send i).isSome) → delivered fragments = pieces.flatten)) ↔
        StopsForGood send 0 (pieces.map List.length)) := by
  refine ⟨pieceCalls send pieces 0 0, fun fuel hfuel => streamFrom_returns send h hfuel 0 0, ?_⟩
  have hcut : ∀ f ∈ pieceCalls send pieces 0 0, f.taken <+: pieces.flatten.drop f.start :=
    fun f hf => (pieceCalls_cut 0 0 hf).2
  rw [gapless_iff_chained hcut, chained_pieceCalls_iff h.ne_nil]
  exact and_iff_left fun hsend => delivered_pieceCalls hsend pieces 0 0

/-- Reads that take pieces from a list. -/
def nextPiece : List (List UInt8) → Int × List UInt8 × List (List UInt8)
  | [] => (0, [], [])
  | piece :: pieces => (piece.length, piece, pieces)

theorem returns_nextPiece {pieces : List (List UInt8)} (hne : ∀ piece ∈ pieces, piece ≠ []) :
    Returns nextPiece pieces pieces := by
  induction pieces with
  | nil => exact Int.le_refl 0
  | cons piece pieces ih =>
      exact ⟨hne piece (by simp), rfl, rfl, ih fun p hp => hne p (by simp [hp])⟩

/-- Two pieces to a socket that takes two bytes at a time and fails after three calls. -/
theorem answer_gapless_short_sends :
    ∃ fragments, streamFrom nextPiece (fun i => if i < 3 then some 1 else none) 3
        [[97, 98, 99], [100, 10]] 0 0 = some fragments ∧
      Gapless [97, 98, 99, 100, 10] fragments := by
  rcases answer_gapless_iff nextPiece (fun i => if i < 3 then some 1 else none)
    [[97, 98, 99], [100, 10]] [[97, 98, 99], [100, 10]] (returns_nextPiece (by decide)) with
    ⟨fragments, hrun, hiff⟩
  have hstops : StopsForGood (fun i => if i < 3 then some 1 else none) 0 [3, 2] := by
    simp [StopsForGood, sendsThrough]
  exact ⟨fragments, hrun 3 (by decide), (hiff.2 hstops).1⟩

/-- 1024 bytes in two reads: the send of the first piece fails, the one of the second
brings the last byte alone. -/
theorem failed_send_leaves_hole :
    ¬∀ (pieces : List (List UInt8)), (∀ piece ∈ pieces, piece ≠ [] ∧ piece.length < bufferSize) →
      ∀ (send : Nat → Option Nat) (fuel : Nat) (fragments : List (Fragment UInt8)),
        streamFrom nextPiece send fuel pieces 0 0 = some fragments →
        Gapless pieces.flatten fragments := by
  intro hall
  have hpieces : ∀ piece ∈ [List.replicate 1023 (97 : UInt8), [10]],
      piece ≠ [] ∧ piece.length < bufferSize := by
    decide +kernel
  have hgapless := hall [List.replicate 1023 97, [10]] hpieces
    (fun i => if i = 0 then none else some 0) 3 _
    (streamFrom_returns _ (returns_nextPiece fun piece hp => (hpieces piece hp).1) (by decide) 0 0)
  have hlast := (hgapless 1).2 ⟨1023, [10]⟩ (by decide +kernel) (by decide)
  exact absurd hlast (by decide +kernel)

end Aesd.Server
