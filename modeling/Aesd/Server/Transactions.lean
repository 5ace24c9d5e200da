import Aesd.Server.Clients
import Aesd.Verified.Simulation

/-!
# Handlers as transactions

What the concurrent handlers amount to, whoever writes between the two locked sections
of whom.  The serial server does in one piece what a handler does in one locked section:
it applies a packet, or answers a client from the line log as it is then.  Every
interleaving of the handlers, piece by piece as they stream, is a run of the serial
server; it applies at most one packet for a client, and answers it at most once.
-/

namespace Aesd.Server

open Aesd.Driver
open Aesd.Verified.Runs
open Aesd.Verified.Simulation

variable {τ : Type}

/-! ## The serial server -/

/-- What a handler does in a locked section. -/
inductive Transaction (τ : Type)
  | apply (thread : τ) (sched : Schedule) (packet : List UInt8)
  | answer (thread : τ)

/-- The line log, where the packet of each client has put the position of its file, and
what each client has been answered. -/
structure SerialServer (τ : Type) where
  log : LineLog
  sought : τ → Option Nat
  answer : τ → Option (List UInt8)

/-- No client has been served. -/
def SerialServer.start (log : LineLog) : SerialServer τ :=
  { log := log, sought := fun _ => none, answer := fun _ => none }

/-- A transaction.  No client is served twice, and none is applied a packet of after its
answer. -/
def SerialServer.next [DecidableEq τ] (s : SerialServer τ) :
    Transaction τ → Option (SerialServer τ)
  | .apply t sched packet =>
      if s.sought t = none ∧ s.answer t = none then
        some { s with
          log := packetLog sched s.log packet
          sought := Function.update s.sought t (some (afterPacket s.log packet).2) }
      else none
  | .answer t =>
      if s.answer t = none then
        some { s with
          answer := Function.update s.answer t
            (some (s.log.contents.drop ((s.sought t).getD 0))) }
      else none

/-! ## The transactions of the handlers -/

/-- The transactions that fall into a step: a packet takes effect when it is applied, and
an answer is that of the moment at which the handler takes the mutex again. -/
def World.transactions (w : World τ) (m : Move τ) : List (Transaction τ) :=
  match (w.clients m.thread).phase with
  | .applying => [.apply m.thread m.sched (w.clients m.thread).data]
  | .relocking => if w.owner = none then [.answer m.thread] else []
  | _ => []

/-- A failing `realloc` frees the mutex only if nobody holds it. -/
def World.Guarded (w : World τ) (m : Move τ) : Prop :=
  (w.clients m.thread).phase = .receiving → m.ReallocFails → w.owner = none

instance (w : World τ) (m : Move τ) : Decidable (w.Guarded m) := by
  unfold World.Guarded Move.ReallocFails
  infer_instance

/-- Where a handler stands for the serial server, which has `contents` stored. -/
def Client.Follows (contents : List UInt8) (sought : Option Nat) (answer : Option (List UInt8))
    (c : Client) : Prop :=
  match c.phase with
  | .opening | .receiving | .locking | .applying =>
      c.At 0 ∧ c.accepted = [] ∧ sought = none ∧ answer = none
  | .applied | .relocking =>
      c.At (sought.getD 0) ∧ sought.getD 0 < 2 ^ 63 ∧ c.accepted = [] ∧ answer = none
  | .streaming => ∃ p < 2 ^ 63, c.At p ∧ answer = some (c.accepted ++ contents.drop p)
  | .streamed | .closing | .done => c.accepted = answer.getD [] ∧ (sought ≠ none → answer ≠ none)

/-- The handlers are where the serial server is. -/
structure World.Serves (w : World τ) (s : SerialServer τ) : Prop where
  sound : Sound w.kernel
  owner : ∀ t, (w.clients t).phase.Holds ↔ w.owner = some t
  log : log w.kernel = s.log
  follows : ∀ t, (w.clients t).Follows s.log.contents (s.sought t) (s.answer t)

theorem World.serves_start {kernel : Kernel} (hk : Sound kernel) (endOfPacket : τ → Bool) :
    (World.start kernel endOfPacket).Serves (.start (Driver.log kernel)) :=
  { sound := hk
    owner := by simp [World.start, Phase.Holds]
    log := rfl
    follows := fun _ => ⟨⟨rfl, rfl⟩, rfl, rfl, rfl⟩ }

variable {w : World τ} {s : SerialServer τ} {t : τ}

theorem World.Serves.exclusive (h : w.Serves s) {u : τ} (ht : (w.clients t).phase.Holds)
    (hu : (w.clients u).phase.Holds) : t = u := by
  rw [h.owner] at ht hu
  exact Option.some.inj (ht.symm.trans hu)

/-- A handler that stands outside its sections follows no change of the line log. -/
theorem Client.Follows.congr {contents contents' : List UInt8} {sought : Option Nat}
    {answer : Option (List UInt8)} {c : Client} (h : c.Follows contents sought answer)
    (hfree : ¬c.phase.Holds) : c.Follows contents' sought answer := by
  unfold Client.Follows at *
  cases hphase : c.phase <;> simp only [hphase] at h hfree ⊢
  case streaming => exact absurd (by decide) hfree
  all_goals exact h

/-- What has been sent is the beginning of the answer. -/
theorem Client.Follows.begins_answer {contents : List UInt8} {sought : Option Nat}
    {answer : Option (List UInt8)} {c : Client} (h : c.Follows contents sought answer) :
    c.accepted <+: answer.getD [] := by
  unfold Client.Follows at h
  cases hphase : c.phase <;> simp only [hphase] at h
  case streaming =>
    rcases h with ⟨p, -, -, rfl⟩
    exact List.prefix_append _ _
  case opening | receiving | locking | applying =>
    rw [h.2.1]
    exact List.nil_prefix
  case applied | relocking =>
    rw [h.2.2.1]
    exact List.nil_prefix
  all_goals exact h.1 ▸ List.prefix_rfl

theorem Client.Follows.answered {contents : List UInt8} {sought : Option Nat}
    {answer : Option (List UInt8)} {c : Client} (h : c.Follows contents sought answer)
    (hanswered : c.Answered) :
    c.accepted = answer.getD [] ∧ (sought ≠ none → answer ≠ none) := by
  unfold Client.Follows at h
  unfold Client.Answered at hanswered
  cases hphase : c.phase <;> simp only [hphase] at h hanswered
  case streamed | closing | done => exact h
  all_goals simp at hanswered

theorem Client.follows_receive {contents : List UInt8} {sought : Option Nat}
    {answer : Option (List UInt8)} {c : Client} (h : c.Follows contents sought answer)
    (hphase : c.phase = .receiving) (bytes : List UInt8) :
    (c.receive bytes).Follows contents sought answer := by
  simp only [Client.Follows, hphase] at h
  obtain ⟨hat, haccepted, hsought, hanswer⟩ := h
  unfold Client.receive
  simp only
  split
  · exact ⟨hat, haccepted, hsought, hanswer⟩
  · split
    · rw [hsought]
      exact ⟨hat, by decide, haccepted, hanswer⟩
    · simp only [Client.Follows, hphase]
      exact ⟨hat, haccepted, hsought, hanswer⟩

/-! ## Step by step -/

section Steps

variable [DecidableEq τ]

/-- A step of `t` that leaves `t` where the serial server has it. -/
theorem World.Serves.put (h : w.Serves s) {c : Client} {kernel : Kernel} {owner : Option τ}
    {s' : SerialServer τ} (hsound : Sound kernel) (hlog : Driver.log kernel = s'.log)
    (hfollows : c.Follows s'.log.contents (s'.sought t) (s'.answer t))
    (hothers : ∀ u ≠ t,
      (w.clients u).Follows s'.log.contents (s'.sought u) (s'.answer u))
    (howner : c.phase.Holds ↔ owner = some t)
    (hfree : ∀ u ≠ t, w.owner = some u ↔ owner = some u) :
    ({ w.put t c with kernel := kernel, owner := owner } : World τ).Serves s' := by
  constructor
  · exact hsound
  · intro u
    show (Function.update w.clients t c u).phase.Holds ↔ owner = some u
    by_cases hu : u = t
    · rw [hu, Function.update_self]
      exact howner
    · rw [Function.update_of_ne hu, ← hfree u hu]
      exact h.owner u
  · exact hlog
  · intro u
    show (Function.update w.clients t c u).Follows s'.log.contents (s'.sought u) (s'.answer u)
    by_cases hu : u = t
    · rw [hu, Function.update_self]
      exact hfollows
    · rw [Function.update_of_ne hu]
      exact hothers u hu

/-- A step of `t` that the serial server does not see. -/
theorem World.Serves.stay (h : w.Serves s) {c : Client} {kernel : Kernel} {owner : Option τ}
    (hsound : Sound kernel) (hlog : Driver.log kernel = Driver.log w.kernel)
    (hfollows : c.Follows s.log.contents (s.sought t) (s.answer t))
    (howner : c.phase.Holds ↔ owner = some t)
    (hfree : ∀ u ≠ t, w.owner = some u ↔ owner = some u) :
    ∃ s', accept SerialServer.next s [] = some s' ∧
      ({ w.put t c with kernel := kernel, owner := owner } : World τ).Serves s' :=
  ⟨s, rfl, h.put hsound (hlog.trans h.log) hfollows (fun u _ => h.follows u) howner hfree⟩

/-- A step that leaves the mutex alone. -/
theorem World.Serves.stayPut (h : w.Serves s) {c : Client} {kernel : Kernel}
    (hsound : Sound kernel) (hlog : Driver.log kernel = Driver.log w.kernel)
    (hfollows : c.Follows s.log.contents (s.sought t) (s.answer t))
    (hphase : c.phase.Holds ↔ (w.clients t).phase.Holds) :
    ∃ s', accept SerialServer.next s [] = some s' ∧
      ({ w.put t c with kernel := kernel } : World τ).Serves s' :=
  h.stay hsound hlog hfollows (hphase.trans (h.owner t)) fun _ _ => Iff.rfl

/-- A step that frees the mutex, which nobody else holds. -/
theorem World.Serves.stayUnlock (h : w.Serves s) {c : Client}
    (hfollows : c.Follows s.log.contents (s.sought t) (s.answer t))
    (hfree : ¬c.phase.Holds) (hmine : ∀ u, w.owner = some u → u = t) :
    ∃ s', accept SerialServer.next s [] = some s' ∧
      ({ w.put t c with owner := none } : World τ).Serves s' := by
  refine h.stay h.sound rfl hfollows ?_ ?_
  · exact iff_of_false hfree nofun
  · intro u hu
    exact iff_of_false (fun heq => hu (hmine u heq)) nofun

omit [DecidableEq τ] in
/-- Taking a mutex that is free takes it from nobody. -/
theorem World.owner_iff_of_free (hfree : w.owner = none) {u : τ} (hu : u ≠ t) :
    w.owner = some u ↔ some t = some u := by
  rw [hfree]
  exact iff_of_false nofun fun heq => hu (Option.some.inj heq).symm

omit [DecidableEq τ] in
/-- The others keep out while `t` holds the mutex. -/
theorem World.Serves.not_holds (h : w.Serves s) (howned : w.owner = some t) {u : τ} (hu : u ≠ t) :
    ¬(w.clients u).phase.Holds := by
  rw [h.owner u, howned, Option.some.injEq]
  exact fun heq => hu heq.symm

/-- **A packet is applied**, in one transaction. -/
theorem World.Serves.step_applying (h : w.Serves s) {m : Move τ}
    (hphase : (w.clients m.thread).phase = .applying) (hm : m.Succeeds) :
    ∃ s', accept SerialServer.next s (w.transactions m) = some s' ∧ (w.step m).Serves s' := by
  have hfollows := h.follows m.thread
  have howned : w.owner = some m.thread := by
    rw [← h.owner, hphase]
    decide
  simp only [Client.Follows, hphase] at hfollows
  obtain ⟨⟨hopen, hpos⟩, haccepted, hsought, hanswer⟩ := hfollows
  have hready : DeviceFile.Ready ⟨w.kernel, (w.clients m.thread).file⟩ 0 :=
    { sound := h.sound, opened := hopen, fPos := hpos }
  obtain ⟨hready', hlog⟩ := hready.applyData hm.1 (hm.2 0) (w.clients m.thread).data
  have hlt := afterPacket_lt h.sound.wf (w.clients m.thread).data
  simp only [World.step, World.transactions, hphase, accept_singleton, SerialServer.next]
  rw [if_pos ⟨hsought, hanswer⟩]
  refine ⟨_, rfl, ?_⟩
  rw [h.log] at hready' hlog hlt
  apply h.put hready'.sound hlog
  · simp only [Client.Follows, Function.update_self, Option.getD_some]
    exact ⟨⟨hready'.opened, hready'.fPos⟩, hlt, haccepted, hanswer⟩
  · intro u hu
    simp only [Function.update_of_ne hu]
    exact (h.follows u).congr (h.not_holds howned hu)
  · exact iff_of_true (by simp [Phase.Holds]) howned
  · intro u _
    exact Iff.rfl

/-- **An answer begins**, as the transaction says. -/
theorem World.Serves.step_relocking (h : w.Serves s) {m : Move τ}
    (hphase : (w.clients m.thread).phase = .relocking) :
    ∃ s', accept SerialServer.next s (w.transactions m) = some s' ∧ (w.step m).Serves s' := by
  have hfollows := h.follows m.thread
  simp only [Client.Follows, hphase] at hfollows
  obtain ⟨hat, hlt, haccepted, hanswer⟩ := hfollows
  simp only [World.step, World.transactions, hphase]
  by_cases hfree : w.owner = none
  · rw [if_pos hfree, if_pos hfree, accept_singleton, SerialServer.next, if_pos hanswer]
    refine ⟨_, rfl, h.put h.sound ?_ ?_ ?_ ?_ ?_⟩
    · exact h.log
    · simp only [Client.Follows, Function.update_self, haccepted]
      exact ⟨_, hlt, hat, rfl⟩
    · intro u hu
      simp only [Function.update_of_ne hu]
      exact h.follows u
    · exact iff_of_true (by simp [Phase.Holds]) rfl
    · intro u hu
      exact World.owner_iff_of_free hfree hu
  · rw [if_neg hfree, if_neg hfree]
    exact ⟨s, rfl, h⟩

/-- **A piece is streamed**, or nothing is left. -/
theorem World.Serves.step_streaming (h : w.Serves s) {m : Move τ}
    (hphase : (w.clients m.thread).phase = .streaming) (hm : m.Succeeds) :
    ∃ s', accept SerialServer.next s (w.transactions m) = some s' ∧ (w.step m).Serves s' := by
  have hfollows := h.follows m.thread
  simp only [Client.Follows, hphase] at hfollows
  obtain ⟨p, hp, ⟨hopen, hpos⟩, hanswer⟩ := hfollows
  have hready : DeviceFile.Ready ⟨w.kernel, (w.clients m.thread).file⟩ p :=
    { sound := h.sound, opened := hopen, fPos := hpos }
  obtain ⟨hret, hbytes, hready', hlog⟩ := hready.read hp hm.1 hm.2 (bufferSize - 1) rfl
  simp only [World.step, World.transactions, hphase]
  rw [h.log] at hret hbytes hready'
  have hrest := take_append_drop_piece s.log.contents p (bufferSize - 1)
  have hlt := h.sound.wf.contents_lt
  rw [h.log] at hlt
  generalize hpiece : (s.log.contents.drop p).take (bufferSize - 1) = piece at *
  have hlen := congrArg List.length hpiece
  simp only [List.length_take, List.length_drop, bufferSize] at hlen
  rw [hret, hbytes, Int.toNat_natCast, List.take_length]
  split
  · refine h.stayPut hready'.sound hlog ?_ (by simp [Phase.Holds, hphase])
    simp only [Client.Follows]
    refine ⟨p + piece.length, by omega, ⟨hready'.opened, hready'.fPos⟩, ?_⟩
    rw [hanswer, List.append_assoc, hrest]
  · refine h.stayPut hready'.sound hlog ?_ (by simp [Phase.Holds, hphase])
    -- An empty piece means that the position is at the end.
    have hend : s.log.contents.drop p = [] := by
      apply List.drop_eq_nil_of_le
      omega
    simp only [Client.Follows]
    rw [hanswer, hend, List.append_nil, Option.getD_some]
    exact ⟨rfl, fun _ => Option.some_ne_none _⟩

/-- **A round of the receive loop**, up to the test of its packet. -/
theorem World.Serves.step_receiving (h : w.Serves s) {m : Move τ}
    (hphase : (w.clients m.thread).phase = .receiving) (hguard : w.Guarded m) :
    ∃ s', accept SerialServer.next s (w.transactions m) = some s' ∧ (w.step m).Serves s' := by
  have hfollows := h.follows m.thread
  have hleave : ∀ phase ∈ [Phase.closing, .done],
      ({ w.clients m.thread with phase := phase } : Client).Follows s.log.contents
        (s.sought m.thread) (s.answer m.thread) := by
    simp only [Client.Follows, hphase] at hfollows
    intro phase hmem
    rcases List.mem_cons.1 hmem with rfl | hmem
    · simp [Client.Follows, hfollows]
    · rw [List.mem_singleton.1 hmem]
      simp [Client.Follows, hfollows]
  simp only [World.step, World.transactions, hphase]
  split
  · exact h.stayPut h.sound rfl (hleave _ (by simp)) (by simp [Phase.Holds, hphase])
  · rename_i hstays
    cases hrecv : m.recv with
    | none => exact h.stayPut h.sound rfl (hleave _ (by simp)) (by simp [Phase.Holds, hphase])
    | some bytes =>
        simp only
        split
        · rename_i hfails
          have hfree := hguard hphase ⟨by simpa using hstays, by simp [hrecv], hfails⟩
          exact h.stayUnlock (hleave _ (by simp)) (by simp [Phase.Holds]) (by simp [hfree])
        · apply h.stayPut h.sound rfl (Client.follows_receive hfollows hphase bytes)
          exact iff_of_false (Client.not_holds_receive hphase bytes)
            (by simp [Phase.Holds, hphase])

/-- **One step** of a handler is the serial server's transactions. -/
theorem World.Serves.step (h : w.Serves s) {m : Move τ} (hm : m.Succeeds) (hguard : w.Guarded m) :
    ∃ s', accept SerialServer.next s (w.transactions m) = some s' ∧ (w.step m).Serves s' := by
  have hfollows := h.follows m.thread
  have howner := h.owner m.thread
  cases hphase : (w.clients m.thread).phase with
  | opening =>
      simp only [World.step, World.transactions, hphase]
      simp only [Client.Follows, hphase] at hfollows
      split
      · exact h.stayPut h.sound rfl (by simp [Client.Follows, hfollows])
          (by simp [Phase.Holds, hphase])
      · split
        · exact h.stayPut h.sound rfl (by simp [Client.Follows, hfollows])
            (by simp [Phase.Holds, hphase])
        · exact h.stayPut h.sound rfl hfollows (by simp [Phase.Holds, hphase])
  | receiving => exact h.step_receiving hphase hguard
  | locking =>
      simp only [World.step, World.transactions, hphase]
      simp only [Client.Follows, hphase] at hfollows
      split
      · rename_i hfree
        refine h.stay h.sound rfl ?_ (iff_of_true (by simp [Phase.Holds]) rfl) ?_
        · exact hfollows
        · intro u hu
          exact World.owner_iff_of_free hfree hu
      · exact ⟨s, rfl, h⟩
  | applying => exact h.step_applying hphase hm
  | applied =>
      simp only [World.step, World.transactions, hphase]
      simp only [Client.Follows, hphase] at hfollows
      have howned := howner.1 (by simp [Phase.Holds, hphase])
      exact h.stayUnlock hfollows (by simp [Phase.Holds]) (by simp [howned])
  | relocking => exact h.step_relocking hphase
  | streaming => exact h.step_streaming hphase hm
  | streamed =>
      simp only [World.step, World.transactions, hphase]
      simp only [Client.Follows, hphase] at hfollows
      have howned := howner.1 (by simp [Phase.Holds, hphase])
      exact h.stayUnlock hfollows (by simp [Phase.Holds]) (by simp [howned])
  | closing =>
      simp only [World.step, World.transactions, hphase]
      simp only [Client.Follows, hphase] at hfollows
      obtain ⟨hsound, hlog⟩ := DeviceFile.close_spec
        (d := ⟨w.kernel, (w.clients m.thread).file⟩) h.sound hm.1
      exact h.stayPut hsound hlog hfollows (by simp [Phase.Holds, hphase])
  | done =>
      simp only [World.step, World.transactions, hphase]
      exact ⟨s, rfl, h⟩

end Steps

/-! ## Runs -/

section Runs

variable [DecidableEq τ]

/-- **A run** of the handlers is the serial server's run of the transactions in it. -/
theorem World.Serves.run (h : w.Serves s) {moves : List (Move τ)}
    (hsucceed : ∀ m ∈ moves, m.Succeeds) (hguard : Along World.step World.Guarded w moves) :
    ∃ s', accept SerialServer.next s (emitted World.step World.transactions w moves) = some s' ∧
      (w.run moves).Serves s' :=
  simulates (fun _ _ _ h hm => h.step hm.1 hm.2) h (along_and (along_of_forall hsucceed) hguard)

/-- **Serializability.**  In every interleaving in which the user copies go through and no
failing `realloc` frees a held mutex, at most one handler is in a locked section, and the
device holds, and each client has been sent, what the serial server has stored and answered
after the transactions in their order; a client whose answer is not complete has been sent
the beginning of it. -/
theorem clients_serializable (garbage : Nat → Nat → UInt8) (history : List Call)
    (hreal : ∀ c ∈ history, c.sched.Realistic) (endOfPacket : τ → Bool) (moves : List (Move τ))
    (hsucceed : ∀ m ∈ moves, m.Succeeds)
    (hguard : Along World.step World.Guarded
      (World.start (runCalls garbage history) endOfPacket) moves) :
    let start := World.start (runCalls garbage history) endOfPacket
    let w := start.run moves
    ∃ s, accept SerialServer.next (.start (log (runCalls garbage history)))
        (emitted World.step World.transactions start moves) = some s ∧
      log w.kernel = s.log ∧
      (∀ t u, (w.clients t).phase.Holds → (w.clients u).phase.Holds → t = u) ∧
      ∀ t, (w.clients t).accepted <+: (s.answer t).getD [] ∧
        ((w.clients t).Answered → (w.clients t).accepted = (s.answer t).getD []) := by
  intro start w
  have hstart := World.serves_start (runCalls_sound garbage hreal) endOfPacket
  obtain ⟨s, haccept, h⟩ := hstart.run hsucceed hguard
  refine ⟨s, haccept, h.log, ?_, ?_⟩
  · intro t u ht hu
    exact h.exclusive ht hu
  · intro t
    constructor
    · exact (h.follows t).begins_answer
    · exact fun hanswered => ((h.follows t).answered hanswered).1

/-- Client 1 writes its line between the two sections of client 0, and both are answered
both lines. -/
theorem clients_serializable_two :
    ∃ s, accept SerialServer.next (.start (log (runCalls (fun _ _ => 0) [])))
        (emitted World.step World.transactions
          (World.start (runCalls (fun _ _ => 0) []) fun _ : Fin 2 => false)
          ([(0, []), (0, [97, 10]), (0, []), (0, []), (0, []), (1, []), (1, [98, 10]), (1, []),
            (1, []), (1, []), (0, []), (0, []), (0, []), (0, [])].map Move.calm)) = some s ∧
      (s.answer 0).getD [] = [97, 10, 98, 10] := by
  obtain ⟨s, haccept, -, -, hclients⟩ := clients_serializable (fun _ _ => 0) [] (by simp)
    (fun _ : Fin 2 => false)
    ([(0, []), (0, [97, 10]), (0, []), (0, []), (0, []), (1, []), (1, [98, 10]), (1, []),
      (1, []), (1, []), (0, []), (0, []), (0, []), (0, [])].map Move.calm)
    (Move.calm_succeeds _) (by decide +kernel)
  refine ⟨s, haccept, ?_⟩
  rw [← (hclients 0).2 (by decide +kernel)]
  decide +kernel

end Runs

end Aesd.Server
