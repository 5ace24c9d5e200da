import Aesd.Server.LogFiles
import Aesd.Verified.Delivery
import Mathlib.Data.List.Infix

/-!
# Reading on while others write

A file is kept open and read piece by piece while other files write.  Positions count
from the oldest stored byte, so a line that is pushed out shifts what the reader sees:
`Watched` keeps the bytes that have been pushed out since the reader began, and the bytes
at position `p` are those of the whole stream behind them.  The reader receives nothing
twice and nothing out of order, and it receives the stream without a gap exactly as long
as nothing has been pushed out.
-/

namespace Aesd.Server

open Aesd.Driver
open Aesd.Verified.Bystanders
open Aesd.Verified.Delivery
open Aesd.Verified.Lines
open Aesd.Verified.Runs
open Aesd.Verified.Segments

/-! ## The lines that come and go -/

/-- The lines that a write of `chunk` adds to the log. -/
def linesAdded (sched : Schedule) (log : LineLog) (chunk : List UInt8) : List (List UInt8) :=
  match writeOutcome sched log chunk with
  | .done => lines newline (log.pending ++ chunk)
  | .noLine i => (lines newline (log.pending ++ chunk)).take i
  | _ => []

/-- The lines that an event adds. -/
def FileStep.linesAdded (log : LineLog) (p : Option Nat) (e : FileStep) : List (List UInt8) :=
  match e.event, p with
  | .call (.write chunk), some _ => Server.linesAdded e.sched log chunk
  | _, _ => []

theorem entries_write {log : LineLog} (h : log.Wf) (sched : Schedule) (chunk : List UInt8) :
    ((writeOutcome sched log chunk).log log chunk).entries =
      (log.entries ++ linesAdded sched log chunk).rtake maxWriteOperationsSupported := by
  have hself : log.entries = (log.entries ++ []).rtake maxWriteOperationsSupported := by
    rw [List.append_nil, rtake_of_length_le h.count]
  unfold linesAdded
  cases writeOutcome sched log chunk with
  | done => rfl
  | noLine i => rfl
  | noKbuf => exact hself
  | badCopy => exact hself
  | noCombined => exact hself

/-- An event leaves the log as it is, or is a write to an open file. -/
theorem FileStep.act_log_cases (log : LineLog) (p : Option Nat) (e : FileStep) :
    ((e.act log p).2.1 = log ∧ e.linesAdded log p = []) ∨
      ∃ chunk, (e.act log p).2.1 = (writeOutcome e.sched log chunk).log log chunk ∧
        e.linesAdded log p = Server.linesAdded e.sched log chunk := by
  rcases e with ⟨sched, event⟩
  cases event with
  | openFile => exact .inl ⟨rfl, rfl⟩
  | close => cases p <;> exact .inl ⟨rfl, rfl⟩
  | call op =>
      cases p with
      | none => cases op <;> exact .inl ⟨rfl, rfl⟩
      | some p =>
          have hlog := op.log_act sched log p
          cases op with
          | write chunk => exact .inr ⟨chunk, rfl, rfl⟩
          | read | llseek | ioctl => exact .inl ⟨hlog, rfl⟩

/-- **What an event does to the stored lines.** -/
theorem FileStep.entries_act {log : LineLog} (h : log.Wf) (p : Option Nat) (e : FileStep) :
    (e.act log p).2.1.entries =
      (log.entries ++ e.linesAdded log p).rtake maxWriteOperationsSupported := by
  rcases e.act_log_cases log p with ⟨hlog, hadded⟩ | ⟨chunk, hlog, hadded⟩
  · rw [hlog, hadded, List.append_nil, rtake_of_length_le h.count]
  · rw [hlog, hadded, entries_write h]

theorem FileStep.act_wf {log : LineLog} (h : log.Wf) (p : Option Nat) {e : FileStep}
    (hreal : e.sched.Realistic) : (e.act log p).2.1.Wf := by
  rcases e.act_log_cases log p with ⟨hlog, -⟩ | ⟨chunk, hlog, -⟩
  · rwa [hlog]
  · rw [hlog]
    exact h.write hreal chunk

/-! ## The stream behind the log -/

/-- The files, and the bytes of the lines pushed out so far. -/
structure Watched (ι : Type) where
  gone : List UInt8
  files : LineLog × (ι → Option Nat)

/-- All that has been stored: what is gone and what is there. -/
def Watched.stream {ι : Type} (s : Watched ι) : List UInt8 := s.gone ++ s.files.1.contents

/-- An event that only reads. -/
def FileStep.IsRead (e : FileStep) : Prop := ∃ count, e.event = .call (.read count)

variable {ι : Type} [DecidableEq ι]

/-- The next event. -/
def Watched.next (s : Watched ι) (e : ι × FileStep) : Watched ι :=
  { gone := s.gone ++ ((s.files.1.entries ++ e.2.linesAdded s.files.1 (s.files.2 e.1)).rdrop
      maxWriteOperationsSupported).flatten
    files := (turn FileStep.act s.files e).2 }

/-- What the event brings to its file, counted in the stream: nothing when it reports an
error. -/
def Watched.fragment (s : Watched ι) (e : ι × FileStep) : Fragment UInt8 :=
  let answer := (turn FileStep.act s.files e).1.2
  { start := s.gone.length + (s.files.2 e.1).getD 0
    taken := if 0 ≤ answer.1 then answer.2 else [] }

/-- What the events on file `f` bring, in turn. -/
def Watched.fragments (f : ι) : Watched ι → List (ι × FileStep) → List (Fragment UInt8)
  | _, [] => []
  | s, e :: run =>
      if e.1 = f then s.fragment e :: (s.next e).fragments f run else (s.next e).fragments f run

theorem rdrop_append_rtake {α : Type*} (n : Nat) (l : List α) : l.rdrop n ++ l.rtake n = l :=
  List.take_append_drop _ _

/-- **Nothing disappears from the stream**, and the new lines come behind. -/
theorem Watched.stream_next {s : Watched ι} (h : s.files.1.Wf) (e : ι × FileStep) :
    (s.next e).stream =
      s.stream ++ (e.2.linesAdded s.files.1 (s.files.2 e.1)).flatten := by
  have hentries := e.2.entries_act h (s.files.2 e.1)
  have hsplit := rdrop_append_rtake maxWriteOperationsSupported
    (s.files.1.entries ++ e.2.linesAdded s.files.1 (s.files.2 e.1))
  calc (s.next e).stream
      = s.gone ++ ((s.files.1.entries ++ e.2.linesAdded s.files.1 (s.files.2 e.1)).rdrop
          maxWriteOperationsSupported).flatten ++
          (e.2.act s.files.1 (s.files.2 e.1)).2.1.entries.flatten := rfl
    _ = s.gone ++ (s.files.1.entries ++ e.2.linesAdded s.files.1 (s.files.2 e.1)).flatten := by
        rw [hentries, List.append_assoc, ← List.flatten_append, hsplit]
    _ = s.stream ++ (e.2.linesAdded s.files.1 (s.files.2 e.1)).flatten := by
        rw [List.flatten_append, ← List.append_assoc]
        rfl

theorem Watched.stream_prefix {s : Watched ι} (h : s.files.1.Wf) {run : List (ι × FileStep)}
    (hrun : ∀ e ∈ run, e.2.sched.Realistic) : s.stream <+: (run.foldl Watched.next s).stream := by
  induction run generalizing s with
  | nil => exact List.prefix_rfl
  | cons e run ih =>
      have hnext := ih (s := s.next e) (FileStep.act_wf h _ (hrun e (by simp)))
        fun e' he' => hrun e' (by simp [he'])
      rw [s.stream_next h] at hnext
      exact (List.prefix_append _ _).trans hnext

/-! ## One read -/

/-- **A read in the stream.**  It brings the bytes that stand at its place in the stream,
moves its file behind them, and pushes nothing out. -/
theorem Watched.fragment_read {s : Watched ι} (h : s.files.1.Wf) {e : ι × FileStep} {p : Nat}
    (hp : s.files.2 e.1 = some p) (hread : e.2.IsRead) :
    (s.fragment e).start = s.gone.length + p ∧
      (s.fragment e).taken <+: s.stream.drop (s.gone.length + p) ∧
      (s.next e).files.2 e.1 = some (p + (s.fragment e).taken.length) ∧
      (s.next e).gone = s.gone := by
  rcases e with ⟨i, sched, event⟩
  rcases hread with ⟨count, rfl⟩
  simp only at hp
  have hgone : (s.next (i, ⟨sched, .call (.read count)⟩)).gone = s.gone := by
    simp only [Watched.next, FileStep.linesAdded, List.append_nil, List.rdrop,
      Nat.sub_eq_zero_of_le h.count, List.take_zero, List.flatten_nil]
  have hdrop : s.stream.drop (s.gone.length + p) = s.files.1.contents.drop p := by
    rw [Watched.stream, ← List.drop_drop, List.drop_left]
  refine ⟨by simp [Watched.fragment, hp], ?_, ?_, hgone⟩
  · rw [hdrop]
    simp only [Watched.fragment, turn, hp, FileStep.act, FileOp.act]
    by_cases hfault : (readEntries sched.copy 0 (segmentsFrom s.files.1.entries p) count).2 = .fault
    · rw [if_pos hfault, if_neg (show ¬(0 : Int) ≤ -EFAULT by decide)]
      exact List.nil_prefix
    · rw [if_neg hfault, if_pos (Int.natCast_nonneg _), readEntries_fst hfault,
        flatten_segmentsFrom]
      exact List.take_prefix _ _
  · simp only [Watched.next, Watched.fragment, turn, hp, FileStep.act, FileOp.act,
      Function.update_self]
    by_cases hfault : (readEntries sched.copy 0 (segmentsFrom s.files.1.entries p) count).2 = .fault
    · rw [if_pos hfault, if_neg (show ¬(0 : Int) ≤ -EFAULT by decide)]
      rfl
    · rw [if_neg hfault, if_pos (Int.natCast_nonneg _)]

/-- What another file does leaves the position. -/
theorem Watched.next_of_ne {s : Watched ι} {e : ι × FileStep} {f : ι} (h : e.1 ≠ f) :
    (s.next e).files.2 f = s.files.2 f :=
  Function.update_of_ne (Ne.symm h) _ _

theorem Watched.gone_prefix (s : Watched ι) (e : ι × FileStep) : s.gone <+: (s.next e).gone :=
  List.prefix_append _ _

/-! ## Reading on -/

/-- The event brings something to file `f` when nothing has been pushed out yet. -/
def Watched.ReadsInTime (f : ι) (s : Watched ι) (e : ι × FileStep) : Prop :=
  e.1 = f → (s.fragment e).taken ≠ [] → s.gone = []

/-- What the reads on file `f` bring in a run that begins at `s` and ends with `stream`. -/
structure Watched.ReadsOn (f : ι) (p : Nat) (s : Watched ι) (run : List (ι × FileStep))
    (stream : List UInt8) : Prop where
  cut : ∀ g ∈ s.fragments f run, g.taken <+: stream.drop g.start
  ascending : Ascending (s.gone.length + p) (s.fragments f run)
  chained : Chained p (s.fragments f run) ↔ Along Watched.next (Watched.ReadsInTime f) s run

/-- **The run lemma**, by induction on the run; the position of the file is known at every
event. -/
theorem Watched.readsOn {f : ι} {p : Nat} {s : Watched ι} {run : List (ι × FileStep)}
    (h : s.files.1.Wf) (hp : s.files.2 f = some p) (hrun : ∀ e ∈ run, e.2.sched.Realistic)
    (hreads : ∀ e ∈ run, e.1 = f → e.2.IsRead) :
    s.ReadsOn f p run (run.foldl Watched.next s).stream := by
  induction run generalizing s p with
  | nil => exact { cut := nofun, ascending := trivial, chained := Iff.rfl }
  | cons e run ih =>
      have hwf : (s.next e).files.1.Wf := FileStep.act_wf h _ (hrun e (by simp))
      have hrun' : ∀ e' ∈ run, e'.2.sched.Realistic := fun e' he' => hrun e' (by simp [he'])
      have hreads' : ∀ e' ∈ run, e'.1 = f → e'.2.IsRead := fun e' he' => hreads e' (by simp [he'])
      by_cases hf : e.1 = f
      · -- The file reads: its fragment comes first, and its position moves behind it.
        have hpos : s.files.2 e.1 = some p := hf ▸ hp
        obtain ⟨hstart, htaken, hnext, hgone⟩ := s.fragment_read h hpos (hreads e (by simp) hf)
        have hrest := ih hwf (hf ▸ hnext) hrun' hreads'
        have hstream : s.stream <+: ((e :: run).foldl Watched.next s).stream :=
          s.stream_prefix h hrun
        have hhead : ((s.fragment e).taken ≠ [] → (s.fragment e).start = p) ↔
            s.ReadsInTime f e := by
          rw [Watched.ReadsInTime, hstart, ← List.length_eq_zero_iff (l := s.gone)]
          simp only [hf, true_imp_iff, Nat.add_eq_right]
        have hascending := hrest.ascending
        rw [hgone] at hascending
        constructor
        · intro g hg
          rw [Watched.fragments, if_pos hf, List.mem_cons] at hg
          rcases hg with rfl | hg
          · rw [hstart]
            exact htaken.trans (hstream.drop _)
          · exact hrest.cut g hg
        · rw [Watched.fragments, if_pos hf]
          refine ⟨hstart.ge, ?_⟩
          rwa [hstart, Nat.add_assoc]
        · rw [Watched.fragments, if_pos hf, Chained, along_cons, hhead, hrest.chained]
      · -- Another file: the position stays, and more may be gone.
        have hrest := ih hwf ((s.next_of_ne hf).trans hp) hrun' hreads'
        have hmore := (s.gone_prefix e).length_le
        have hhead : s.ReadsInTime f e := fun heq => absurd heq hf
        constructor
        · rw [Watched.fragments, if_neg hf]
          exact hrest.cut
        · rw [Watched.fragments, if_neg hf]
          exact hrest.ascending.mono (by omega)
        · rw [Watched.fragments, if_neg hf, along_cons, hrest.chained, and_iff_right hhead]

/-- What the answers that report no error have delivered. -/
def received (answers : List (Int × List UInt8)) : List UInt8 :=
  (answers.filter fun a => 0 ≤ a.1).flatMap Prod.snd

/-- The fragments are what file `f` is answered. -/
theorem Watched.delivered_fragments (f : ι) (s : Watched ι) (run : List (ι × FileStep)) :
    delivered (s.fragments f run) =
      received (answersTo f (transcript (turn FileStep.act) s.files run).1) := by
  induction run generalizing s with
  | nil => rfl
  | cons e run ih =>
      rcases e with ⟨i, e⟩
      have hrest := ih (s.next (i, e))
      simp only [transcript]
      by_cases hi : i = f
      · subst hi
        rw [Watched.fragments, if_pos rfl, delivered_cons, hrest, answersTo_cons_self, received]
        simp only [Watched.fragment, received, Watched.next]
        by_cases hret : 0 ≤ (turn FileStep.act s.files (i, e)).1.2.1
        · rw [List.filter_cons_of_pos (by simpa using hret), List.flatMap_cons, if_pos hret]
        · rw [List.filter_cons_of_neg (by simpa using hret), if_neg hret, List.nil_append]
      · rw [Watched.fragments, if_neg hi, hrest, answersTo_cons_of_ne hi]
        rfl

/-- **Reading on.**  A file that is only read, while anything happens to the others, receives
bytes of the stream of all stored lines in their order, none of them twice; and it receives
the stream without a gap exactly when no read that brings anything comes after a line has
been pushed out. -/
theorem reading_on (garbage : Nat → Nat → UInt8) (history : List Call)
    (hreal : ∀ c ∈ history, c.sched.Realistic) (f : ι) (run : List (ι × FileStep))
    (hrun : ∀ e ∈ run, e.2.sched.Realistic) (hreads : ∀ e ∈ run, e.1 = f → e.2.IsRead) :
    let k := runCalls garbage history
    let s : Watched ι := { gone := [], files := (log k, fun _ => some 0) }
    let stream := (run.foldl Watched.next s).stream
    let got := received (answersTo f (transcript OpenFiles.handle (.start k) run).1)
    got = delivered (s.fragments f run) ∧ got.Sublist stream ∧
      (Gapless stream (s.fragments f run) ↔ Along Watched.next (Watched.ReadsInTime f) s run) := by
  intro k s stream got
  have hk : Sound k := runCalls_sound garbage hreal
  have hsame := (OpenFiles.refines_run (OpenFiles.refines_start hk) hrun).1
  have hgot : got = delivered (s.fragments f run) := by
    rw [s.delivered_fragments]
    exact congrArg (fun answers => received (answersTo f answers)) hsame
  have hon : s.ReadsOn f 0 run stream := Watched.readsOn hk.wf rfl hrun hreads
  refine ⟨hgot, ?_, ?_⟩
  · rw [hgot]
    exact hon.ascending.sublist hon.cut
  · rw [gapless_iff_chained hon.cut, hon.chained]

/-- File 0 reads two bytes of the line `ab`, file 1 writes the line `c`, and file 0 reads the
rest: nothing has been pushed out. -/
theorem reading_on_two :
    received (answersTo 0 (transcript OpenFiles.handle (OpenFiles.start
      (runCalls (fun _ _ => 0) [⟨.limited [] [], .opened, .write [97, 98, 10]⟩]))
      [(0, ⟨.limited [] [], .call (.read 2)⟩), (1, ⟨.limited [] [], .call (.write [99, 10])⟩),
        (0, ⟨.limited [] [], .call (.read 9)⟩)]).1) = [97, 98, 10, 99, 10] := by
  have hgot := (reading_on (fun _ _ => 0) [⟨.limited [] [], .opened, .write [97, 98, 10]⟩]
    (by simp [Schedule.realistic_limited]) 0
    [((0 : Nat), ⟨.limited [] [], .call (.read 2)⟩),
      (1, ⟨.limited [] [], .call (.write [99, 10])⟩),
      (0, ⟨.limited [] [], .call (.read 9)⟩)]
    (by simp [Schedule.realistic_limited])
    (by simp [FileStep.IsRead])).1
  rw [hgot]
  decide +kernel

end Aesd.Server
