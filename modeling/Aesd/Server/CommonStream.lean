import Aesd.Server.Transactions

/-!
# One stream for all clients

When nothing is refused, the packets that are data make one stream, in the order of the
transactions.  The device holds the last ten lines of it, and what a client is answered
is the last ten lines of a beginning of the stream that has the client's own packet in
it, or a part of these lines from a sought byte on.  So all clients see one order, and
each sees its own lines as long as ten others have not pushed them out.
-/

namespace Aesd.Server

open Aesd.Driver
open Aesd.Verified.Lines
open Aesd.Verified.Runs
open Aesd.Verified.Simulation

variable {τ : Type} [DecidableEq τ]

/-! ## What the serial server keeps -/

section Serial

variable {s s' : SerialServer τ} {tx : Transaction τ} {t : τ}

/-- What a transaction does. -/
theorem SerialServer.next_cases (h : s.next tx = some s') :
    (∃ t sched packet, tx = .apply t sched packet ∧ s.sought t = none ∧ s.answer t = none ∧
      s' = { s with
        log := packetLog sched s.log packet
        sought := Function.update s.sought t (some (afterPacket s.log packet).2) }) ∨
    ∃ t, tx = .answer t ∧ s.answer t = none ∧
      s' = { s with
        answer := Function.update s.answer t
          (some (s.log.contents.drop ((s.sought t).getD 0))) } := by
  cases tx with
  | apply t sched packet =>
      simp only [SerialServer.next] at h
      split at h
      · rename_i hfresh
        exact .inl ⟨t, sched, packet, rfl, hfresh.1, hfresh.2, (Option.some.inj h).symm⟩
      · cases h
  | answer t =>
      simp only [SerialServer.next] at h
      split at h
      · rename_i hfresh
        exact .inr ⟨t, rfl, hfresh, (Option.some.inj h).symm⟩
      · cases h

/-- A sought position stays. -/
theorem SerialServer.sought_next (h : s.next tx = some s') {p : Nat} (hp : s.sought t = some p) :
    s'.sought t = some p := by
  rcases SerialServer.next_cases h with ⟨u, sched, packet, -, hnone, -, rfl⟩ | ⟨u, -, -, rfl⟩
  · have hu : t ≠ u := by
      rintro rfl
      exact absurd (hp.symm.trans hnone) (Option.some_ne_none p)
    exact (Function.update_of_ne hu _ _).trans hp
  · exact hp

/-- An answer stays. -/
theorem SerialServer.answer_next (h : s.next tx = some s') {bytes : List UInt8}
    (hbytes : s.answer t = some bytes) : s'.answer t = some bytes := by
  rcases SerialServer.next_cases h with ⟨u, sched, packet, -, -, -, rfl⟩ | ⟨u, -, hnone, rfl⟩
  · exact hbytes
  · have hu : t ≠ u := by
      rintro rfl
      exact absurd (hbytes.symm.trans hnone) (Option.some_ne_none bytes)
    exact (Function.update_of_ne hu _ _).trans hbytes

/-- What a transaction does not change, a run of the serial server does not change. -/
theorem SerialServer.accept_induction {P : SerialServer τ → Prop}
    (hstep : ∀ s tx s', s.next tx = some s' → P s → P s') {txs : List (Transaction τ)}
    (h : accept SerialServer.next s txs = some s') (hs : P s) : P s' := by
  induction txs generalizing s with
  | nil => exact Option.some.inj h ▸ hs
  | cons tx txs ih =>
      obtain ⟨a, hnext, hrest⟩ := Option.bind_eq_some_iff.1 h
      exact ih hrest (hstep s tx a hnext hs)

/-- A client whose packet has been applied has sought a position. -/
theorem SerialServer.sought_of_applied {before after : List (Transaction τ)} {sched : Schedule}
    {packet : List UInt8}
    (h : accept SerialServer.next s (before ++ .apply t sched packet :: after) = some s') :
    s'.sought t ≠ none := by
  rw [accept_append] at h
  obtain ⟨a, -, hfrom⟩ := Option.bind_eq_some_iff.1 h
  obtain ⟨b, hnext, hafter⟩ := Option.bind_eq_some_iff.1 hfrom
  rcases SerialServer.next_cases hnext with ⟨_, _, _, heq, -, -, hb⟩ | ⟨_, heq, -⟩
  · obtain ⟨rfl, rfl, rfl⟩ := Transaction.apply.inj heq
    have hsought : b.sought t = some (afterPacket a.log packet).2 := by
      rw [hb]
      exact Function.update_self ..
    rw [SerialServer.accept_induction (P := fun s => s.sought t = some _)
      (fun _ _ _ h => SerialServer.sought_next h) hafter hsought]
    exact Option.some_ne_none _
  · cases heq

/-- **A client is answered** from the line log of a moment after which nothing changes
its answer any more. -/
theorem SerialServer.answered_at {txs : List (Transaction τ)} {bytes : List UInt8}
    (h : accept SerialServer.next s txs = some s') (hfresh : s.answer t = none)
    (hbytes : s'.answer t = some bytes) :
    ∃ before after a, txs = before ++ .answer t :: after ∧
      accept SerialServer.next s before = some a ∧
      bytes = a.log.contents.drop ((a.sought t).getD 0) := by
  induction txs generalizing s with
  | nil =>
      obtain rfl := Option.some.inj h
      exact absurd (hbytes.symm.trans hfresh) (Option.some_ne_none bytes)
  | cons tx txs ih =>
      obtain ⟨b, hnext, hrest⟩ := Option.bind_eq_some_iff.1 h
      by_cases hb : b.answer t = none
      · obtain ⟨before, after, a, rfl, hbefore, hanswer⟩ := ih hrest hb
        refine ⟨tx :: before, after, a, rfl, ?_, hanswer⟩
        exact Option.bind_eq_some_iff.2 ⟨b, hnext, hbefore⟩
      · -- The answer is that of the first transaction, and stays.
        rcases SerialServer.next_cases hnext with ⟨u, _, _, -, -, -, rfl⟩ | ⟨u, rfl, -, rfl⟩
        · exact absurd hfresh hb
        · obtain rfl : t = u := by
            by_contra hu
            exact hb ((Function.update_of_ne hu _ _).trans hfresh)
          refine ⟨[], txs, s, rfl, rfl, ?_⟩
          have hlast := SerialServer.accept_induction (P := fun s => s.answer t = some _)
            (fun _ _ _ h => SerialServer.answer_next h) hrest (Function.update_self t _ _)
          exact Option.some.inj (hbytes.symm.trans hlast)

end Serial

/-! ## The stream -/

/-- The data among the packets, end to end. -/
def storedBy (txs : List (Transaction τ)) : List UInt8 :=
  txs.flatMap fun
    | .apply _ _ packet => if (seekCommand packet).isSome then [] else packet
    | .answer _ => []

/-- The kernel refuses nothing that fits `bound`. -/
def Schedule.Grants (sched : Schedule) (bound : Nat) : Prop :=
  sched.Realistic ∧ (∀ i, sched.copy i = true) ∧ ∀ i n, n ≤ bound → sched.kmalloc i n = true

theorem Schedule.grants_limited {bound : Nat} (h : bound ≤ 2 ^ 22) :
    Schedule.Grants (.limited [] []) bound :=
  ⟨Schedule.realistic_limited _ _, fun _ => rfl,
    fun i n hn => (Env.calm_succeeds [] h).kmallocs 0 i n hn⟩

/-- A packet of the transaction is not refused anything that fits `bound`. -/
def Transaction.Granted (bound : Nat) : Transaction τ → Prop
  | .apply _ sched _ => Schedule.Grants sched bound
  | .answer _ => True

theorem Schedule.Grants.writeOutcome_eq {sched : Schedule} {bound : Nat}
    (h : Schedule.Grants sched bound) {log : LineLog} {chunk : List UInt8}
    (hfit : log.pending.length + chunk.length ≤ bound) : writeOutcome sched log chunk = .done := by
  have henv : ({ Env.calm [] with device := fun _ => sched } : Env).Succeeds bound :=
    { Env.calm_succeeds [] (Nat.zero_le _) with
      realistic := fun _ => h.1
      copies := fun _ => h.2.1
      kmallocs := fun _ i n hn => h.2.2 i n hn }
  exact henv.writeOutcome_eq hfit 0

omit [DecidableEq τ] in
theorem storedBy_append (txs more : List (Transaction τ)) :
    storedBy (txs ++ more) = storedBy txs ++ storedBy more :=
  List.flatMap_append

omit [DecidableEq τ] in
theorem storedBy_cons (tx : Transaction τ) (txs : List (Transaction τ)) :
    storedBy (tx :: txs) = storedBy [tx] ++ storedBy txs :=
  storedBy_append [tx] txs

/-- What a transaction adds to the stream. -/
theorem SerialServer.next_log {s s' : SerialServer τ} {tx : Transaction τ} {stream : List UInt8}
    {bound : Nat} (h : s.next tx = some s') (hgrant : tx.Granted bound)
    (hfit : (stream ++ storedBy [tx]).length ≤ bound) (hlog : s.log = .ofStream stream) :
    s'.log = .ofStream (stream ++ storedBy [tx]) := by
  rcases SerialServer.next_cases h with ⟨t, sched, packet, rfl, -, -, rfl⟩ | ⟨t, rfl, -, rfl⟩
  · simp only [storedBy, List.flatMap_cons, List.flatMap_nil, List.append_nil, packetLog] at *
    rw [hlog]
    cases hcmd : seekCommand packet with
    | some seekto => simp
    | none =>
        have hpending : (LineLog.ofStream stream).pending.length ≤ stream.length :=
          (List.rtakeWhile_suffix _ _).length_le
        simp only [hcmd, Option.isSome_none, Bool.false_eq_true, if_false, List.length_append]
          at hfit ⊢
        rw [hgrant.writeOutcome_eq (by omega), ← LineLog.append_ofStream]
        rfl
  · simpa [storedBy] using hlog

/-- **The line log of a run** of the serial server is that of the stream. -/
theorem SerialServer.accept_log {s s' : SerialServer τ} {txs : List (Transaction τ)}
    {stream : List UInt8} {bound : Nat} (h : accept SerialServer.next s txs = some s')
    (hgrant : ∀ tx ∈ txs, tx.Granted bound) (hfit : (stream ++ storedBy txs).length ≤ bound)
    (hlog : s.log = .ofStream stream) : s'.log = .ofStream (stream ++ storedBy txs) := by
  induction txs generalizing s stream with
  | nil =>
      obtain rfl := Option.some.inj h
      simpa [storedBy] using hlog
  | cons tx txs ih =>
      obtain ⟨a, hnext, hrest⟩ := Option.bind_eq_some_iff.1 h
      rw [storedBy_cons, ← List.append_assoc] at hfit ⊢
      rw [List.length_append] at hfit
      have hfirst := SerialServer.next_log hnext (hgrant tx (by simp)) (by omega) hlog
      apply ih hrest (fun tx' htx' => hgrant tx' (by simp [htx'])) _ hfirst
      rw [List.length_append]
      exact hfit

/-- **An answer of a run.**  A client whose packet has been applied is answered what is
stored, at a later moment, from the position on that its packet has sought. -/
theorem SerialServer.answer_eq {s : SerialServer τ} {before after : List (Transaction τ)} {t : τ}
    {sched : Schedule} {packet : List UInt8} {bytes : List UInt8} {bound : Nat}
    (h : accept SerialServer.next (.start (.ofStream []))
      (before ++ .apply t sched packet :: after) = some s)
    (hgrant : ∀ tx ∈ before ++ .apply t sched packet :: after, tx.Granted bound)
    (hfit : (storedBy (before ++ .apply t sched packet :: after)).length ≤ bound)
    (hbytes : s.answer t = some bytes) :
    ∃ mid rest, after = mid ++ .answer t :: rest ∧
      bytes = (LineLog.ofStream (storedBy (before ++ .apply t sched packet :: mid))).contents.drop
        (afterPacket (.ofStream (storedBy before)) packet).2 := by
  rw [accept_append] at h
  obtain ⟨a, hbefore, hfrom⟩ := Option.bind_eq_some_iff.1 h
  obtain ⟨b, hnext, hafter⟩ := Option.bind_eq_some_iff.1 hfrom
  rcases SerialServer.next_cases hnext with ⟨_, _, _, heq, -, hfresh, hb⟩ | ⟨_, heq, -⟩
  · obtain ⟨rfl, rfl, rfl⟩ := Transaction.apply.inj heq
    have hfresh' : b.answer t = none := by
      rw [hb]
      exact hfresh
    obtain ⟨mid, rest, c, rfl, hmid, hanswer⟩ :=
      SerialServer.answered_at hafter hfresh' hbytes
    refine ⟨mid, rest, rfl, ?_⟩
    have hlog : a.log = .ofStream ([] ++ storedBy before) := by
      rw [storedBy_append, List.length_append] at hfit
      apply SerialServer.accept_log hbefore (fun tx htx => hgrant tx (by simp [htx])) _ rfl
      rw [List.nil_append]
      omega
    have hsought : c.sought t = some (afterPacket a.log packet).2 := by
      apply SerialServer.accept_induction (P := fun s => s.sought t = some _)
        (fun _ _ _ h => SerialServer.sought_next h) hmid
      rw [hb]
      exact Function.update_self ..
    have hsplit : before ++ .apply t sched packet :: (mid ++ .answer t :: rest) =
        (before ++ .apply t sched packet :: mid) ++ .answer t :: rest := by simp
    have hstored : c.log =
        .ofStream ([] ++ storedBy (before ++ .apply t sched packet :: mid)) := by
      rw [hsplit] at hgrant hfit
      rw [storedBy_append, List.length_append] at hfit
      apply SerialServer.accept_log (s := .start (.ofStream [])) _
        (fun tx htx => hgrant tx (List.mem_append_left _ htx)) _ rfl
      · rw [accept_append, hbefore, Option.bind_some]
        exact Option.bind_eq_some_iff.2 ⟨b, hnext, hmid⟩
      · rw [List.nil_append]
        omega
    rw [hanswer, hsought, hstored, hlog]
    rfl
  · cases heq

/-- A whole packet is still stored as long as the stream has brought at most ten
newlines since its beginning. -/
theorem LineLog.infix_contents {before packet behind : List UInt8}
    (hlast : packet.getLast? = some newline)
    (hcount : (packet ++ behind).count newline ≤ maxWriteOperationsSupported) :
    packet <:+: (LineLog.ofStream (before ++ packet ++ behind)).contents := by
  obtain ⟨body, rfl⟩ := List.getLast?_eq_some_iff.1 hlast
  have hrest : rest newline (before ++ (body ++ [newline])) = [] := by
    rw [← List.append_assoc]
    exact rest_concat newline _
  have hown : (lines newline (rest newline before ++ (body ++ [newline]))).flatten =
      rest newline before ++ (body ++ [newline]) := by
    have hsplit := flatten_lines_append_rest newline (rest newline before ++ (body ++ [newline]))
    rwa [← rest_append, hrest, List.append_nil] at hsplit
  have hlines : lines newline (before ++ (body ++ [newline]) ++ behind) = lines newline before ++
      (lines newline (rest newline before ++ (body ++ [newline])) ++ lines newline behind) := by
    rw [lines_append newline (before ++ (body ++ [newline])), hrest, List.nil_append,
      lines_append newline before, List.append_assoc]
  have hfew : (lines newline (rest newline before ++ (body ++ [newline])) ++
      lines newline behind).length ≤ maxWriteOperationsSupported := by
    rw [List.length_append, length_lines, length_lines, List.count_append,
      List.count_eq_zero.2 (not_mem_rest newline before), Nat.zero_add, ← List.count_append]
    exact hcount
  unfold LineLog.contents LineLog.ofStream
  obtain ⟨kept, hkept⟩ := suffix_rtake_append (lines newline before) hfew
  rw [hlines, ← hkept, List.flatten_append, List.flatten_append, hown]
  refine ⟨kept.flatten ++ rest newline before, (lines newline behind).flatten, ?_⟩
  simp only [List.append_assoc]

/-! ## Runs of the handlers -/

/-- The transactions of a run are granted what its steps are. -/
theorem World.granted_transactions {w : World τ} {moves : List (Move τ)} {bound : Nat}
    (h : ∀ m ∈ moves, Schedule.Grants m.sched bound) :
    ∀ tx ∈ emitted World.step World.transactions w moves, tx.Granted bound := by
  refine forall_emitted ?_ h
  intro w m hm tx htx
  unfold World.transactions at htx
  split at htx
  · rw [List.mem_singleton.1 htx]
    exact hm
  · split at htx
    · rw [List.mem_singleton.1 htx]
      trivial
    · cases htx
  · cases htx

/-- What a client is answered, in a state that the serial server reaches from the
loading of the driver. -/
theorem World.Serves.answered {w : World τ} {s : SerialServer τ} (h : w.Serves s) {t : τ}
    {before after : List (Transaction τ)} {sched : Schedule} {packet : List UInt8} {bound : Nat}
    (haccept : accept SerialServer.next (.start (.ofStream []))
      (before ++ .apply t sched packet :: after) = some s)
    (hgrant : ∀ tx ∈ before ++ .apply t sched packet :: after, tx.Granted bound)
    (hfit : (storedBy (before ++ .apply t sched packet :: after)).length ≤ bound)
    (hanswered : (w.clients t).Answered) :
    ∃ mid rest, after = mid ++ .answer t :: rest ∧
      (w.clients t).accepted =
        (LineLog.ofStream (storedBy (before ++ .apply t sched packet :: mid))).contents.drop
          (afterPacket (.ofStream (storedBy before)) packet).2 := by
  obtain ⟨haccepted, hanswer⟩ := (h.follows t).answered hanswered
  obtain ⟨bytes, hbytes⟩ :=
    Option.ne_none_iff_exists'.1 (hanswer (SerialServer.sought_of_applied haccept))
  obtain ⟨mid, rest, hafter, hstored⟩ := SerialServer.answer_eq haccept hgrant hfit hbytes
  refine ⟨mid, rest, hafter, ?_⟩
  rw [haccepted, hbytes]
  exact hstored

omit [DecidableEq τ] in
/-- A packet of whole lines is in what is stored behind it. -/
theorem infix_storedBy (before : List (Transaction τ)) (t : τ) (sched : Schedule)
    {mid : List (Transaction τ)} {packet : List UInt8} (hdata : seekCommand packet = none)
    (hlast : packet.getLast? = some newline)
    (hcount : (packet ++ storedBy mid).count newline ≤ maxWriteOperationsSupported) :
    packet <:+: (LineLog.ofStream
      (storedBy (before ++ .apply t sched packet :: mid))).contents.drop
        (afterPacket (.ofStream (storedBy before)) packet).2 := by
  have hpacket : storedBy (before ++ .apply t sched packet :: mid) =
      storedBy before ++ packet ++ storedBy mid := by
    rw [storedBy_append, storedBy_cons, ← List.append_assoc]
    simp [storedBy, hdata]
  have hwhole : (afterPacket (.ofStream (storedBy before)) packet).2 = 0 := by
    rw [afterPacket, hdata]
  rw [hpacket, hwhole, List.drop_zero]
  exact LineLog.infix_contents hlast hcount

/-- **One stream.**  From the loading of the driver, in every interleaving in which no
failing `realloc` frees a held mutex and the kernel refuses nothing: the device holds the
last ten lines of the data of all packets, in the order of the transactions.  A client is
answered what is stored after a later transaction, from the sought position on; and a
client that has sent whole lines finds them in its answer, as long as at most ten lines
have been stored since. -/
theorem answers_share_stream (garbage : Nat → Nat → UInt8) (endOfPacket : τ → Bool)
    (moves : List (Move τ)) (bound : Nat) (hgrant : ∀ m ∈ moves, Schedule.Grants m.sched bound)
    (hguard : Along World.step World.Guarded
      (World.start (aesdInitModule garbage) endOfPacket) moves) :
    let start := World.start (aesdInitModule garbage) endOfPacket
    let served := emitted World.step World.transactions start moves
    let w := start.run moves
    (storedBy served).length ≤ bound →
    log w.kernel = .ofStream (storedBy served) ∧
    ∀ t before sched packet after, (w.clients t).Answered →
      served = before ++ .apply t sched packet :: after →
      ∃ mid rest, after = mid ++ .answer t :: rest ∧
        (w.clients t).accepted =
          (LineLog.ofStream
            (storedBy (before ++ .apply t sched packet :: mid))).contents.drop
              (afterPacket (.ofStream (storedBy before)) packet).2 ∧
        (seekCommand packet = none → packet.getLast? = some newline →
          (packet ++ storedBy mid).count newline ≤ maxWriteOperationsSupported →
            packet <:+: (w.clients t).accepted) := by
  intro start served w hfit
  have hgranted : ∀ tx ∈ served, tx.Granted bound := World.granted_transactions hgrant
  have hinit := (Rep.init garbage).log_eq.trans LineLog.ofStream_nil.symm
  have hnone : ∀ c ∈ ([] : List Call), c.sched.Realistic := by simp
  have hstart := World.serves_start (runCalls_sound garbage hnone) endOfPacket
  obtain ⟨s, haccept, hserves⟩ := hstart.run (fun m hm => ⟨(hgrant m hm).1, (hgrant m hm).2.1⟩)
    hguard
  rw [show runCalls garbage [] = aesdInitModule garbage from rfl, hinit] at haccept
  constructor
  · have hlog : s.log = .ofStream ([] ++ storedBy served) :=
      SerialServer.accept_log haccept hgranted hfit rfl
    exact hserves.log.trans hlog
  · intro t before sched packet after hanswered hserved
    have haccept' : accept SerialServer.next (.start (.ofStream [])) served = some s := haccept
    rw [hserved] at haccept' hgranted hfit
    obtain ⟨mid, rest, hafter, hstored⟩ := hserves.answered haccept' hgranted hfit hanswered
    refine ⟨mid, rest, hafter, hstored, ?_⟩
    intro hdata hlast hcount
    have hown := infix_storedBy before t sched hdata hlast hcount
    rwa [← hstored] at hown

/-- Client 1 writes its line between the two sections of client 0; client 0 finds its own
line in its answer all the same. -/
theorem answers_share_stream_two :
    [97, 10] <:+: (((World.start (aesdInitModule fun _ _ => 0) fun _ : Fin 2 => false).run
      ([(0, []), (0, [97, 10]), (0, []), (0, []), (0, []), (1, []), (1, [98, 10]), (1, []),
        (1, []), (1, []), (0, []), (0, []), (0, []), (0, [])].map Move.calm)).clients
          0).accepted := by
  obtain ⟨-, hclients⟩ := answers_share_stream (fun _ _ => 0) (fun _ : Fin 2 => false)
    ([(0, []), (0, [97, 10]), (0, []), (0, []), (0, []), (1, []), (1, [98, 10]), (1, []),
      (1, []), (1, []), (0, []), (0, []), (0, []), (0, [])].map Move.calm) 4
    (fun m hm => by
      obtain ⟨step, -, rfl⟩ := List.mem_map.1 hm
      exact Schedule.grants_limited (by decide))
    (by decide +kernel) (by decide +kernel)
  obtain ⟨mid, rest, hafter, -, hown⟩ := hclients 0 [] (.limited [] []) [97, 10]
    [.apply 1 (.limited [] []) [98, 10], .answer 0] (by decide +kernel) rfl
  apply hown (by decide) rfl
  have hstored := congrArg storedBy hafter
  rw [storedBy_append] at hstored
  have hcount := congrArg (List.count newline) hstored
  rw [List.count_append, show (storedBy [Transaction.apply (1 : Fin 2) (.limited [] []) [98, 10],
    .answer 0]).count newline = 1 by decide] at hcount
  rw [List.count_append, show ([97, 10] : List UInt8).count newline = 1 by decide]
  unfold maxWriteOperationsSupported
  omega

end Aesd.Server
