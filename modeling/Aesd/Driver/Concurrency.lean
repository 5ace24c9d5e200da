import Aesd.Driver.CallAnswers
import Aesd.Verified.Bystanders
import Aesd.Verified.LockedCalls

/-!
# All operations at once

Any number of threads open, read, write, seek and close files of one device, and their
steps interleave between the loop rounds of `aesd_read`, `aesd_write` and
`aesd_ioctl_set_pos`.  `driver` is the device as a service in the sense of `LockedCalls`:
what an operation does before it takes `dev->lock`, and its rounds under the lock, each as
a step on the line log.  The blocks that an operation allocates are its own until it
publishes them, so that a round holds their bytes.

Two operations free the lock without holding it: `aesd_release`, and an `aesd_read` that
has come to the end of the data.
-/

namespace Aesd.Driver

open Aesd.Verified.Bystanders
open Aesd.Verified.Lines
open Aesd.Verified.LockedCalls
open Aesd.Verified.Loops
open Aesd.Verified.Runs
open Aesd.Verified.Segments

/-! ## The operations, round by round -/

/-- A call that the kernel answers as it can. -/
abbrev RealCall := { c : Call // c.sched.Realistic }

/-- Where a call is under `dev->lock`: before and after `combined_buffer` is filled, at the
top of the line loop with `i` requests for blocks made, at the top of the read loop with
`i` copies made, at the checks of the sought line, and at the top of the loop over the
lines before it. -/
inductive Section
  | combine (c : Call) (chunk : List UInt8)
  | store (c : Call) (chunk combined : List UInt8)
  | commit (c : Call) (chunk : List UInt8) (i : Nat)
  | read (c : Call) (i count : Nat) (delivered : List UInt8)
  | seek (c : Call) (cmd offset : Nat)
  | sum (c : Call) (cmd offset i pos : Nat)

/-- An answer after which the lock is left alone. -/
def Call.refuses (c : Call) (ret : Int) : Reply Answer := { answer := c.refuse ret, frees := 0 }

/-- A call up to `mutex_lock`. -/
def Call.enter (c : Call) : Reply Answer ⊕ Section :=
  if c.filp.privateData = false then .inl (c.refuses (-ENODEV))
  else match c.op with
    | .write chunk =>
        if c.sched.kmalloc 0 chunk.length = false then .inl (c.refuses (-ENOMEM))
        else if c.sched.copy 0 = false then .inl (c.refuses (-EFAULT))
        else .inr (.combine c chunk)
    | .read count _ => .inr (.read c 0 count [])
    | .ioctl cmd arg =>
        if cmd = AESDCHAR_IOCSEEKTO then
          if c.sched.copy 0 = false then .inl (c.refuses (-EFAULT))
          else .inr (.seek c arg.writeCmd.toNat arg.writeCmdOffset.toNat)
        else .inl (c.refuses (-ENOTTY))
    | .llseek offset whence =>
        let r := aesdLlseek c.filp offset whence
        .inl { answer := { ret := r.1, delivered := [], pos := r.2.fPos }, frees := 0 }
    | .release => .inl { answer := c.refuse 0, frees := 1 }

/-- The answer of a read that leaves its loop with `delivered` copied. -/
def Call.readReply (c : Call) (delivered : List UInt8) (exit : ReadExit) : Reply Answer :=
  { answer := readAnswer c.pos (delivered, exit)
    frees := if exit = .endOfData then 1 else 0 }

/-- One round under `dev->lock`. -/
def Section.round : LineLog × Section → (LineLog × Reply Answer) ⊕ (LineLog × Section)
  | (log, .combine c chunk) =>
      if c.sched.kmalloc 1 (log.pending ++ chunk).length = false then
        .inl (log, c.refuses (-ENOMEM))
      else .inr (log, .store c chunk (log.pending ++ chunk))
  | (log, .store c chunk combined) => .inr ({ log with pending := combined }, .commit c chunk 2)
  | (log, .commit c chunk i) =>
      match log.pending.idxOf? newline with
      | none => .inl (log, c.refuses chunk.length)
      | some newlinePos =>
          if c.sched.kmalloc i (newlinePos + 1) = false then
            .inl ({ log with pending := [] }, c.refuses (-ENOMEM))
          else
            .inr
              ({ entries := (log.entries ++ [log.pending.take (newlinePos + 1)]).rtake
                  maxWriteOperationsSupported
                 pending := log.pending.drop (newlinePos + 1) },
                .commit c chunk (i + 1))
  | (log, .read c _ 0 delivered) => .inl (log, c.readReply delivered .served)
  | (log, .read c i (count + 1) delivered) =>
      match segmentsFrom log.entries (toSize (c.pos + delivered.length)) with
      | [] => .inl (log, c.readReply delivered .endOfData)
      | s :: _ =>
          if c.sched.copy i then
            .inr (log, .read c (i + 1) (count + 1 - s.length) (delivered ++ s.take (count + 1)))
          else .inl (log, c.readReply delivered .fault)
  | (log, .seek c cmd offset) =>
      if log.entries.length ≤ cmd then .inl (log, c.refuses (-EINVAL))
      else .inr (log, .sum c cmd offset 0 0)
  | (log, .sum c cmd offset i pos) =>
      if i < cmd then
        match log.entries[i]? with
        | none => .inl (log, c.refuses (-EINVAL))
        | some line => .inr (log, .sum c cmd offset (i + 1) (pos + line.length))
      else
        match log.entries[cmd]? with
        | none => .inl (log, c.refuses (-EINVAL))
        | some line =>
            if offset < line.length then
              .inl (log,
                { answer := { ret := 0, delivered := [], pos := ((pos + offset : Nat) : Int) }
                  frees := 0 })
            else .inl (log, c.refuses (-EINVAL))

/-- The device as a service. -/
def driver : Service LineLog RealCall Section Answer :=
  { enter := fun c => c.1.enter, round := Section.round }

/-! ## A call that nobody interrupts -/

/-- How often a call frees the lock without holding it. -/
def Call.frees (c : Call) (log : LineLog) : Nat :=
  if c.filp.privateData = false then 0
  else match c.op with
    | .read count pos =>
        if (readEntries c.sched.copy 0 (segmentsFrom log.entries (toSize pos)) count).2 =
          .endOfData then 1 else 0
    | .release => 1
    | _ => 0

/-- What a call answers on a log. -/
def Call.reply (c : Call) (log : LineLog) : Reply Answer :=
  { answer := c.answer log, frees := c.frees log }

section Uninterrupted

variable {c : Call} {log : LineLog}

/-- The line loop, from any round on. -/
theorem ends_commit {entries : List (List UInt8)} (chunk pending : List UInt8)
    (hcount : entries.length ≤ maxWriteOperationsSupported) (i : Nat) :
    Ends Section.round (⟨entries, pending⟩, .commit c chunk i)
      (match firstRefused c.sched i (lines newline pending) with
        | none =>
            (⟨(entries ++ lines newline pending).rtake maxWriteOperationsSupported,
              rest newline pending⟩, c.refuses chunk.length)
        | some j =>
            (⟨(entries ++ (lines newline pending).take j).rtake maxWriteOperationsSupported, []⟩,
              c.refuses (-ENOMEM))) := by
  induction pending using lines_induction newline generalizing entries i with
  | tail pending hnl =>
      rw [lines_of_not_mem hnl, rest_of_not_mem hnl, List.append_nil, rtake_of_length_le hcount]
      refine .leave ?_
      simp only [Section.round, List.idxOf?_eq_none_iff.2 hnl, firstRefused]
  | line body tail hbody ih =>
      have hidx : (body ++ newline :: tail).idxOf? newline = some body.length := by
        rw [List.idxOf?_eq_some_iff]
        refine ⟨by simp, by simp, fun j hj heq => hbody ?_⟩
        rw [List.getElem_append_left hj] at heq
        exact heq ▸ List.getElem_mem hj
      have htake : (body ++ newline :: tail).take (body.length + 1) = body ++ [newline] := by
        simp [List.take_append]
      have hdrop : (body ++ newline :: tail).drop (body.length + 1) = tail := by
        simp
      rw [lines_line_append hbody, rest_append_cons, firstRefused, List.length_append,
        List.length_singleton]
      cases hgrant : c.sched.kmalloc i (body.length + 1) with
      | false =>
          refine .leave ?_
          simp only [Section.round, hidx, hgrant, if_true, Bool.false_eq_true, if_false,
            List.take_zero, List.append_nil, rtake_of_length_le hcount]
      | true =>
          refine .again (show _ = Sum.inr
            (⟨(entries ++ [body ++ [newline]]).rtake maxWriteOperationsSupported, tail⟩,
              .commit c chunk (i + 1)) from ?_) ?_
          · simp only [Section.round, hidx, hgrant, Bool.true_eq_false, if_false, htake, hdrop]
          · have hlen : ((entries ++ [body ++ [newline]]).rtake
                maxWriteOperationsSupported).length ≤ maxWriteOperationsSupported := by simp
            have hrest := ih hlen (i + 1)
            simp only [if_true]
            cases hfirst : firstRefused c.sched (i + 1) (lines newline tail) with
            | none =>
                simpa only [hfirst, rtake_rtake_append, List.append_assoc, List.singleton_append,
                  Option.map_none] using hrest
            | some j =>
                simpa only [hfirst, rtake_rtake_append, List.append_assoc, List.singleton_append,
                  Option.map_some, List.take_succ_cons] using hrest

/-- **A write** that has come to the lock. -/
theorem ends_write (hwf : log.Wf) (chunk : List UInt8) :
    Ends Section.round (log, .combine c chunk)
      ((lockedOutcome c.sched 1 (log.pending ++ chunk)).log log chunk,
        c.refuses ((lockedOutcome c.sched 1 (log.pending ++ chunk)).ret chunk)) := by
  rw [lockedOutcome]
  cases hcomb : c.sched.kmalloc 1 (log.pending ++ chunk).length with
  | false =>
      refine .leave ?_
      simp only [Section.round, hcomb, if_true]
      rfl
  | true =>
      refine .again (show _ = Sum.inr (log, .store c chunk (log.pending ++ chunk)) from ?_)
        (.again (show _ = Sum.inr (⟨log.entries, log.pending ++ chunk⟩, .commit c chunk 2) from rfl)
          ?_)
      · simp only [Section.round, hcomb, Bool.true_eq_false, if_false]
      · have hloop := ends_commit (c := c) chunk (log.pending ++ chunk) hwf.count 2
        simp only [Bool.true_eq_false, if_false]
        cases hfirst : firstRefused c.sched 2 (lines newline (log.pending ++ chunk)) with
        | none =>
            rw [hfirst] at hloop
            exact hloop
        | some j =>
            rw [hfirst] at hloop
            exact hloop

/-- **A read**, from any round on. -/
theorem ends_read (hwf : log.Wf) {segs : List (List UInt8)} {count : Nat} (i : Nat)
    (delivered : List UInt8)
    (hfrom : segmentsFrom log.entries (toSize (c.pos + delivered.length)) = segs) :
    Ends Section.round (log, .read c i count delivered)
      (log, c.readReply (delivered ++ (readEntries c.sched.copy i segs count).1)
        (readEntries c.sched.copy i segs count).2) := by
  fun_induction readEntries c.sched.copy i segs count generalizing delivered with
  | case1 =>
      rw [List.append_nil]
      exact .leave rfl
  | case2 i count =>
      rw [List.append_nil]
      refine .leave ?_
      simp only [Section.round, hfrom]
  | case3 i s segs count hcopy r ih =>
      refine .again (show _ = Sum.inr (log, .read c (i + 1) (count + 1 - s.length)
        (delivered ++ s.take (count + 1))) from ?_) ?_
      · simp only [Section.round, hfrom, hcopy, if_true]
      · rw [← List.append_assoc]
        by_cases hshort : count + 1 < s.length
        · -- The count is used up inside this entry.
          have hzero : count + 1 - s.length = 0 := by omega
          simp only [r, hzero, readEntries_zero, List.append_nil]
          exact .leave rfl
        · have hlen := congrArg List.length (flatten_segmentsFrom log.entries
            (toSize (c.pos + delivered.length)))
          have hfit := hwf.contents_lt
          rw [hfrom, List.flatten_cons, List.length_append, List.length_drop] at hlen
          rw [LineLog.contents] at hfit
          have hpos : toSize (c.pos + (delivered ++ s).length) =
              toSize (c.pos + delivered.length) + s.length := by
            rw [List.length_append]
            simp only [toSize, sizeMod] at hlen ⊢
            omega
          have hrest := ih (delivered ++ s)
            (by rw [hpos]; exact segmentsFrom_add_length hwf.entries_ne_nil hfrom)
          rw [List.take_of_length_le (Nat.not_lt.1 hshort)]
          exact hrest
  | case4 i s segs count hcopy =>
      rw [List.append_nil]
      refine .leave ?_
      simp only [Section.round, hfrom, hcopy]
      rfl

/-- The loop over the lines before the sought one, from any round on. -/
theorem ends_sum {cmd offset : Nat} (hcmd : cmd < log.entries.length) (left i : Nat)
    (hleft : i + left = cmd) :
    Ends Section.round (log, .sum c cmd offset i (log.entries.take i).flatten.length)
      (log, match log.seekTarget cmd offset with
        | some p => { answer := { ret := 0, delivered := [], pos := p }, frees := 0 }
        | none => c.refuses (-EINVAL)) := by
  induction left generalizing i with
  | zero =>
      obtain rfl : i = cmd := by omega
      refine .leave ?_
      simp only [Section.round, Nat.lt_irrefl, if_false, LineLog.seekTarget,
        List.getElem?_eq_getElem hcmd]
      by_cases hoffset : offset < log.entries[i].length
      · simp only [if_pos hoffset]
      · simp only [if_neg hoffset]
  | succ left ih =>
      have hi : i < log.entries.length := by omega
      refine .again (show _ = Sum.inr (log, .sum c cmd offset (i + 1)
        (log.entries.take (i + 1)).flatten.length) from ?_) (ih (i + 1) (by omega))
      have htake : (log.entries.take (i + 1)).flatten.length =
          (log.entries.take i).flatten.length + log.entries[i].length := by
        rw [← List.take_concat_get' log.entries i hi, List.flatten_append, List.length_append]
        simp
      simp only [Section.round, if_pos (show i < cmd by omega), List.getElem?_eq_getElem hi, htake]

/-- **A seek** that has come to the lock. -/
theorem ends_seek (log : LineLog) (cmd offset : Nat) :
    Ends Section.round (log, .seek c cmd offset)
      (log, match log.seekTarget cmd offset with
        | some p => { answer := { ret := 0, delivered := [], pos := p }, frees := 0 }
        | none => c.refuses (-EINVAL)) := by
  by_cases hcmd : cmd < log.entries.length
  · refine .again (show _ = Sum.inr (log, .sum c cmd offset 0 0) from ?_)
      (ends_sum hcmd cmd 0 (Nat.zero_add cmd))
    simp only [Section.round, if_neg (Nat.not_le.2 hcmd)]
  · have hnone : log.seekTarget cmd offset = none := by
      rw [LineLog.seekTarget, List.getElem?_eq_none (Nat.not_lt.1 hcmd)]
    refine .leave ?_
    simp only [Section.round, if_pos (Nat.not_lt.1 hcmd), hnone]

/-- **A call that nobody interrupts** answers and does what the line log says. -/
theorem driver_answers (hwf : log.Wf) (c : RealCall) :
    driver.Answers log c (c.1.reply log) (c.1.effect log) := by
  obtain ⟨⟨sched, filp, op⟩, hreal⟩ := c
  simp only [Service.Answers, driver, Call.enter, Call.reply, Call.answer, Call.frees, Call.effect]
  cases hopen : filp.privateData with
  | false =>
      simp only [if_true, Bool.false_eq_true, if_false]
      refine ⟨rfl, ?_⟩
      cases op <;> rfl
  | true =>
      simp only [Bool.true_eq_false, if_false, if_true]
      cases op with
      | write chunk =>
          simp only [writeOutcome]
          by_cases hkbuf : sched.kmalloc 0 chunk.length = false
          · simp only [hkbuf, if_true]
            exact ⟨rfl, rfl⟩
          by_cases hcopy : sched.copy 0 = false
          · simp only [hkbuf, hcopy, if_true]
            exact ⟨rfl, rfl⟩
          simp only [hkbuf, hcopy]
          exact ends_write hwf chunk
      | read count pos =>
          have hpos : toSize ((pos : Int) + (([] : List UInt8).length : Int)) = toSize pos := by
            simp
          have hends :
              Ends Section.round (log, .read ⟨sched, filp, .read count pos⟩ 0 count []) _ :=
            ends_read hwf 0 [] (congrArg (segmentsFrom log.entries) hpos)
          rw [List.nil_append] at hends
          exact hends
      | ioctl cmd arg =>
          by_cases hcmd : cmd = AESDCHAR_IOCSEEKTO
          · by_cases hcopy : sched.copy 0 = false
            · simp only [hcmd, hcopy, if_true]
              exact ⟨rfl, trivial⟩
            · simp only [hcmd, hcopy, if_true]
              have hends := ends_seek (c := ⟨sched, filp, .ioctl AESDCHAR_IOCSEEKTO arg⟩) log
                arg.writeCmd.toNat arg.writeCmdOffset.toNat
              cases htarget : log.seekTarget arg.writeCmd.toNat arg.writeCmdOffset.toNat <;>
                rw [htarget] at hends <;> exact hends
          · simp only [hcmd, if_false]
            exact ⟨rfl, trivial⟩
      | llseek offset whence => exact ⟨rfl, rfl⟩
      | release => exact ⟨rfl, rfl⟩

end Uninterrupted

/-! ## Calls one after another -/

/-- A call as the kernel executes it, with what it answers. -/
def answered (k : Kernel) (c : Call) : Answer × Kernel := (answerOf k c, exec k c)

/-- The calls and the answers of a record. -/
def callsIn {τ : Type*} (order : List (τ × RealCall × Answer)) : List Call :=
  order.map fun x => x.2.1.1

def answersIn {τ : Type*} (order : List (τ × RealCall × Answer)) : List Answer :=
  order.map fun x => x.2.2

/-- **Calls that are serial on the line log** are what the kernel does when it executes them
one after another. -/
theorem serial_answered {τ : Type*} {k : Kernel} (hk : Sound k)
    {order : List (τ × RealCall × Answer)} {data : LineLog}
    (h : Serial driver (log k) order data) :
    (transcript answered k (callsIn order)).1 = answersIn order ∧
      Sound (transcript answered k (callsIn order)).2 ∧
      log (transcript answered k (callsIn order)).2 = data := by
  induction h with
  | start => exact ⟨rfl, hk, rfl⟩
  | call t hserial hcall ih =>
      rename_i calls data data' c r
      obtain ⟨hanswers, hsound, hlog⟩ := ih
      have hwf := hlog ▸ hsound.wf
      obtain ⟨rfl, rfl⟩ := hcall.unique (driver_answers hwf c)
      rw [callsIn, List.map_append, ← callsIn, List.map_singleton, transcript_append]
      refine ⟨?_, exec_sound hsound c.2, ?_⟩
      · rw [answersIn, List.map_append, ← answersIn, hanswers]
        show _ ++ [answerOf _ c.1] = _ ++ [c.1.answer data]
        rw [hsound.answerOf_eq c.2, hlog]
      · show log (exec _ c.1) = c.1.effect data
        rw [(exec_spec hsound c.2).2.1, hlog]

/-! ## The device under all interleavings -/

variable {τ : Type*} [DecidableEq τ]

/-- **The device is linearizable.**  Threads make any calls on the device after any history,
and their steps interleave in any order in which nobody frees the lock from outside
under another.  Then, at every moment: at most one thread is between its `mutex_lock` and
its `mutex_unlock`; the calls recorded earlier stand first in the record; a thread between
two calls has been returned what the record says of it; and the kernel gives the recorded
answers when it executes the recorded calls one after another, and comes to the same line
log when nobody is inside. -/
theorem calls_linearize (garbage : Nat → Nat → UInt8) (history : List Call)
    (hreal : ∀ c ∈ history, c.sched.Realistic) (actions : List (Action RealCall τ))
    (hquiet : Along (step driver) FreedQuiet (.start (log (runCalls garbage history))) actions)
    (n : Nat) :
    let k := runCalls garbage history
    let s := (actions.take n).foldl (step driver) (.start (log k))
    Exclusive s ∧
      (∀ m ≤ n, ((actions.take m).foldl (step driver) (.start (log k))).order <+: s.order) ∧
      (∀ t, s.phase t = .idle → callsOf t s.order = s.returned t) ∧
      (transcript answered k (callsIn s.order)).1 = answersIn s.order ∧
      (Quiet s → log (transcript answered k (callsIn s.order)).2 = s.data) := by
  intro k s
  have hk : Sound k := runCalls_sound garbage hreal
  have hinv : Inv driver (log k) s := inv_run (hquiet.take n)
  refine ⟨hinv.guarded.exclusive, ?_, ?_, ?_, ?_⟩
  · intro m hm
    have hsplit : actions.take n = actions.take m ++ (actions.drop m).take (n - m) := by
      rw [← List.take_add, Nat.add_sub_cancel' hm]
    show _ <+: ((actions.take n).foldl (step driver) (.start (log k))).order
    rw [hsplit, List.foldl_append]
    exact order_prefix driver _ _
  · intro t hidle
    rw [hinv.told t, hidle, Phase.due, List.append_nil]
  · obtain ⟨data, hserial⟩ := hinv.guarded.serial
    exact (serial_answered hk hserial).1
  · intro hnobody
    exact (serial_answered hk (hinv.guarded.data_of_quiet hnobody)).2.2

/-- A call in which nothing fails. -/
def RealCall.calm (filp : File) (op : Op) : RealCall :=
  ⟨⟨.limited [] [], filp, op⟩, Schedule.realistic_limited _ _⟩

/-- Thread `false` writes a line while thread `true` wants to read it; the read comes to the
end of the data and frees the lock twice. -/
def writeAndRead : List (Action RealCall Bool) :=
  [.call false (.calm .opened (.write [97, 10])),
    .call true (.calm .opened (.read 9 ⟨0, by decide⟩)), .go false, .go false, .go true, .go false,
    .go false, .go false, .go true, .go false, .go true, .go true, .go true, .go true, .go true,
    .go true, .go false]

theorem calls_linearize_writeAndRead :
    let k := runCalls (fun _ _ => 0) []
    let s := writeAndRead.foldl (step driver) (.start (log k))
    (s.returned true).map Prod.snd = [⟨2, [97, 10], 2⟩] ∧
      (transcript answered k (callsIn s.order)).1 = answersIn s.order :=
  ⟨by decide +kernel,
    (calls_linearize (fun _ _ => 0) [] (by simp) writeAndRead (by decide +kernel) 17).2.2.2.1⟩

end Aesd.Driver
