import DeviceAgent.ControlLoop

/-!
# The course of a relayed command

`TransferCmd` takes the lock, sends the command until the device answers, and
then forwards the answer until the port takes it.  One counter serves both
kinds of failure.  The calls are logged in order next to the transfer, and every
log has one of three shapes.
-/

namespace DeviceAgent

open ReadResult

inductive RelayEvent
  | lock
  | send (cmd : List Byte)
  /-- What `ReceiveFrameFrom` leaves; nothing after a timeout. -/
  | received (answer : List Byte)
  | forward (answer : List Byte) (ok : Bool)
  | unlock
  deriving DecidableEq, Repr

namespace RelayEvent

def isSend : RelayEvent → Bool
  | send _ => true
  | _ => false

/-- The answer received, if it is one. -/
def answer? : RelayEvent → Option (List Byte)
  | received answer => if answer = [] then none else some answer
  | _ => none

/-- The answer the port has taken, if it has. -/
def completed? : RelayEvent → Option (List Byte)
  | forward answer true => some answer
  | _ => none

end RelayEvent

structure Relay where
  transfer : Transfer
  log : List RelayEvent

namespace Relay

/-- The first half of a pass, skipped once there is an answer. -/
def ask (cmd : Packet) (dev : List Byte) (r : Relay) : Relay :=
  if r.transfer.answer.getSize = 0 then
    let answer := (r.transfer.answer.receiveFrameFrom (dev.map byte ++ [zero])).packet
    { transfer := { r.transfer with
        toDevice := r.transfer.toDevice ++ serialWrite cmd.strCache
        answer := answer }
      log := r.log ++ [.send cmd.strCache, .received answer.strCache] }
  else r

def countUp (r : Relay) : Relay :=
  { r with transfer := { r.transfer with retry := r.transfer.retry + 1 } }

def forward (ok : Bool) (r : Relay) : Relay :=
  let answer := r.transfer.answer.strCache
  { transfer :=
      if ok then { r.transfer with toServer := r.transfer.toServer ++ [answer], retry := 0 }
      else { r.transfer with retry := r.transfer.retry + 1 }
    log := r.log ++ [.forward answer ok] }

def loop (cmd : Packet) : ℕ → List TransferInput → Relay → Relay
  | 0, _, r => r
  | passes + 1, inputs, r =>
      let i := inputs.headD ⟨[], none⟩
      let r := r.ask cmd i.dev
      if r.transfer.answer.getSize = 0 then loop cmd passes inputs.tail r.countUp
      else
        match i.sendTo with
        | none => r.forward true
        | some _ => loop cmd passes inputs.tail (r.forward false)

def start : Relay := ⟨⟨[], [], ⟨[], []⟩, 0⟩, [.lock]⟩

end Relay

/-- `TransferCmd` with its calls logged. -/
def relayCmd (cmd : Packet) (inputs : List TransferInput) (flags : Flags) : Relay × Flags :=
  let r := Relay.loop cmd 3 inputs Relay.start
  let r := { r with log := r.log ++ [.unlock] }
  if r.transfer.answer.getSize = 0 then (r, { flags with bInCommunicationError := true })
  else if r.transfer.retry = 3 then (r, { flags with bExtCommunicationError := true })
  else (r, ⟨false, false⟩)

namespace Relay

/-! ## The log is kept beside the transfer -/

theorem loop_transfer (cmd : Packet) (passes : ℕ) (inputs : List TransferInput) (r : Relay) :
    (loop cmd passes inputs r).transfer = transferLoop cmd passes inputs r.transfer := by
  induction passes generalizing inputs r with
  | zero => rfl
  | succ passes ih =>
      have hask : (r.ask cmd (inputs.headD ⟨[], none⟩).dev).transfer =
          if r.transfer.answer.getSize = 0 then
            { r.transfer with
              toDevice := r.transfer.toDevice ++ serialWrite cmd.strCache
              answer := (r.transfer.answer.receiveFrameFrom
                ((inputs.headD ⟨[], none⟩).dev.map byte ++ [zero])).packet }
          else r.transfer := by
        unfold ask
        split <;> rfl
      rw [loop, transferLoop]
      simp only [← hask]
      split
      · exact ih _ _
      · cases (inputs.headD ⟨[], none⟩).sendTo with
        | none => rfl
        | some e => exact ih _ _

theorem relayCmd_transferCmd (cmd : Packet) (inputs : List TransferInput) (flags : Flags) :
    ((relayCmd cmd inputs flags).1.transfer, (relayCmd cmd inputs flags).2) =
      transferCmd cmd inputs flags := by
  have htransfer : (loop cmd 3 inputs start).transfer =
      transferLoop cmd 3 inputs ⟨[], [], ⟨[], []⟩, 0⟩ := loop_transfer cmd 3 inputs start
  unfold relayCmd transferCmd
  dsimp only
  rw [← htransfer]
  split_ifs <;> rfl

/-! ## The three courses -/

def timeouts (cmd : List Byte) (k : ℕ) : List RelayEvent :=
  (List.replicate k [.send cmd, .received []]).flatten

def refusals (answer : List Byte) (m : ℕ) : List RelayEvent :=
  List.replicate m (.forward answer false)

/-- The log when an answer comes: timeouts, the answer, refused forwardings,
and perhaps one that succeeds. -/
def answered (cmd answer : List Byte) (k m : ℕ) (done : Bool) : List RelayEvent :=
  timeouts cmd k ++ [.send cmd, .received answer] ++ refusals answer m ++
    if done then [.forward answer true] else []

/-- The shapes of a log and what the transfer is left with. -/
inductive Course (cmd : List Byte) : List RelayEvent → Transfer → Prop
  | silent {t : Transfer} (hanswer : t.answer.strCache = []) :
      Course cmd (.lock :: timeouts cmd 3) t
  | forwarded {t : Transfer} (k m : ℕ) (hpasses : k + m < 3) (hanswer : t.answer.strCache ≠ [])
      (hretry : t.retry ≠ 3) :
      Course cmd (.lock :: answered cmd t.answer.strCache k m true) t
  | refused {t : Transfer} (k m : ℕ) (hpasses : k + m = 3) (htried : 0 < m)
      (hanswer : t.answer.strCache ≠ []) (hretry : t.retry = 3) :
      Course cmd (.lock :: answered cmd t.answer.strCache k m false) t

theorem timeouts_succ (cmd : List Byte) (k : ℕ) :
    timeouts cmd (k + 1) = timeouts cmd k ++ [RelayEvent.send cmd, RelayEvent.received []] := by
  rw [timeouts, timeouts, List.replicate_succ', List.flatten_concat]

theorem answered_new (cmd answer : List Byte) (k : ℕ) :
    answered cmd answer k 0 false =
      timeouts cmd k ++ [RelayEvent.send cmd, RelayEvent.received answer] := by
  simp [answered, refusals]

theorem answered_refused (cmd answer : List Byte) (k m : ℕ) :
    answered cmd answer k m false ++ [.forward answer false] =
      answered cmd answer k (m + 1) false := by
  simp [answered, refusals, List.replicate_succ']

theorem answered_done (cmd answer : List Byte) (k m : ℕ) :
    answered cmd answer k m false ++ [.forward answer true] = answered cmd answer k m true := by
  simp [answered]

theorem ask_of_answer {r : Relay} (hanswer : r.transfer.answer.strCache ≠ []) (cmd : Packet)
    (dev : List Byte) : r.ask cmd dev = r := by
  have hsize : ¬ r.transfer.answer.getSize = 0 := by simpa [Packet.getSize] using hanswer
  rw [ask, if_neg hsize]

/-- Once there is an answer, the passes left are spent on forwarding it. -/
theorem loop_answered (cmd : Packet) (passes : ℕ) (inputs : List TransferInput) (r : Relay)
    (k m : ℕ) (hpasses : k + m + passes = 3) (hmade : 0 < m + passes)
    (hanswer : r.transfer.answer.strCache ≠ []) (hretry : r.transfer.retry = k + m)
    (hlog : r.log = .lock :: answered cmd.strCache r.transfer.answer.strCache k m false) :
    Course cmd.strCache (loop cmd passes inputs r).log (loop cmd passes inputs r).transfer := by
  induction passes generalizing inputs r m with
  | zero =>
      rw [loop, hlog]
      exact .refused k m hpasses hmade hanswer (hretry.trans hpasses)
  | succ passes ih =>
      have hsize : ¬ r.transfer.answer.getSize = 0 := by simpa [Packet.getSize] using hanswer
      rw [loop]
      simp only [ask_of_answer hanswer, hsize, if_false]
      cases (inputs.headD ⟨[], none⟩).sendTo with
      | none =>
          have hdone : (r.forward true).log =
              .lock :: answered cmd.strCache r.transfer.answer.strCache k m true := by
            rw [← answered_done, ← List.cons_append, ← hlog]
            rfl
          rw [hdone]
          exact .forwarded (t := (r.forward true).transfer) k m (by omega) hanswer
            (by simp [forward])
      | some e =>
          refine ih inputs.tail (r.forward false) (m + 1) (by omega) (by omega) hanswer ?_ ?_
          · change r.transfer.retry + 1 = k + (m + 1)
            omega
          · change r.log ++ [.forward r.transfer.answer.strCache false] =
              .lock :: answered cmd.strCache r.transfer.answer.strCache k (m + 1) false
            rw [hlog, List.cons_append, answered_refused]

/-- Before that, each pass is one timeout. -/
theorem loop_silent (cmd : Packet) (passes : ℕ) (inputs : List TransferInput) (r : Relay) (k : ℕ)
    (hpasses : k + passes = 3) (hanswer : r.transfer.answer.strCache = [])
    (hretry : r.transfer.retry = k) (hlog : r.log = .lock :: timeouts cmd.strCache k) :
    Course cmd.strCache (loop cmd passes inputs r).log (loop cmd passes inputs r).transfer := by
  induction passes generalizing inputs r k with
  | zero =>
      obtain rfl : k = 3 := hpasses
      rw [loop, hlog]
      exact .silent hanswer
  | succ passes ih =>
      obtain ⟨asked, hasked⟩ : ∃ asked, asked = r.ask cmd (inputs.headD ⟨[], none⟩).dev := ⟨_, rfl⟩
      have hsize : r.transfer.answer.getSize = 0 := by simp [Packet.getSize, hanswer]
      have hretry' : asked.transfer.retry = k := by
        rw [hasked, ask, if_pos hsize]
        exact hretry
      have hlog' : asked.log = RelayEvent.lock :: (timeouts cmd.strCache k ++
          [RelayEvent.send cmd.strCache,
            RelayEvent.received asked.transfer.answer.strCache]) := by
        rw [hasked, ask, if_pos hsize]
        simp [hlog]
      by_cases hgot : asked.transfer.answer.strCache = []
      · have hsize' : asked.transfer.answer.getSize = 0 := by simp [Packet.getSize, hgot]
        rw [loop]
        simp only [← hasked, hsize', if_true]
        refine ih inputs.tail asked.countUp (k + 1) (by omega) hgot ?_ ?_
        · exact congrArg (· + 1) hretry'
        · rw [timeouts_succ, ← hgot]
          exact hlog'
      · -- the rest of this pass is a pass with the answer at hand
        have hpass : loop cmd (passes + 1) inputs r = loop cmd (passes + 1) inputs asked := by
          rw [loop, loop]
          simp only [ask_of_answer hgot, ← hasked]
        rw [hpass]
        refine loop_answered cmd (passes + 1) inputs asked k 0 (by omega) (by omega) hgot
          hretry' ?_
        rw [answered_new]
        exact hlog'

theorem course (cmd : Packet) (inputs : List TransferInput) :
    Course cmd.strCache (loop cmd 3 inputs start).log (loop cmd 3 inputs start).transfer :=
  loop_silent cmd 3 inputs start 0 (Nat.zero_add 3) rfl rfl rfl

/-! ## What every course has in common -/

theorem countP_timeouts (p : RelayEvent → Bool) (cmd : List Byte) (k : ℕ) :
    (timeouts cmd k).countP p =
      k * ((if p (.send cmd) then 1 else 0) + if p (.received []) then 1 else 0) := by
  induction k with
  | zero => simp [timeouts]
  | succ k ih =>
      rw [timeouts_succ, List.countP_append, ih, Nat.succ_mul]
      simp [List.countP_cons, Nat.add_comm]

theorem countP_refusals (p : RelayEvent → Bool) (answer : List Byte) (m : ℕ) :
    (refusals answer m).countP p = m * if p (.forward answer false) then 1 else 0 := by
  rw [refusals, List.countP_replicate]
  split <;> simp

theorem mem_timeouts {cmd : List Byte} {k : ℕ} {e : RelayEvent} (he : e ∈ timeouts cmd k) :
    e = .send cmd ∨ e = .received [] := by
  obtain ⟨round, hround, hmem⟩ := List.mem_flatten.mp he
  rw [List.eq_of_mem_replicate hround] at hmem
  simpa using hmem

theorem findSome?_timeouts (cmd : List Byte) (k : ℕ) :
    (timeouts cmd k).findSome? RelayEvent.answer? = none := by
  rw [List.findSome?_eq_none_iff]
  intro e he
  rcases mem_timeouts he with rfl | rfl <;> rfl

/-- What the calls made must look like, in their order. -/
structure Orderly (cmd : List Byte) (log : List RelayEvent) : Prop where
  locked : log.head? = some .lock ∧ log.count .lock = 1
  released : log.getLast? = some .unlock ∧ log.count .unlock = 1
  command : ∀ bytes, .send bytes ∈ log → bytes = cmd
  sends : log.countP RelayEvent.isSend ≤ 3
  /-- No send behind an answer. -/
  notAgain : log.Pairwise fun e e' ↦ e.answer? ≠ none → e'.isSend = false
  once : log.countP (fun e ↦ e.completed?.isSome) ≤ 1
  first : ∀ answer ok, .forward answer ok ∈ log → log.findSome? RelayEvent.answer? = some answer

theorem notAgain_of_split {before behind : List RelayEvent}
    (hbefore : ∀ e ∈ before, e.answer? = none) (hbehind : ∀ e ∈ behind, e.isSend = false) :
    (before ++ behind).Pairwise fun e e' ↦ e.answer? ≠ none → e'.isSend = false := by
  refine List.pairwise_append.mpr ⟨?_, ?_, ?_⟩
  · exact List.pairwise_of_forall_mem_list fun e he _ _ hne ↦ absurd (hbefore e he) hne
  · exact List.pairwise_of_forall_mem_list fun _ _ e he _ ↦ hbehind e he
  · exact fun e he e' _ hne ↦ absurd (hbefore e he) hne

theorem answer?_of_mem_timeouts {cmd : List Byte} {k : ℕ} {e : RelayEvent}
    (he : e ∈ timeouts cmd k) : e.answer? = none := by
  rcases mem_timeouts he with rfl | rfl <;> rfl

theorem orderly_silent (cmd : List Byte) :
    Orderly cmd (.lock :: timeouts cmd 3 ++ [.unlock]) where
  locked := ⟨rfl, by simp [List.count, countP_timeouts]⟩
  released := ⟨List.getLast?_concat, by simp [List.count, countP_timeouts]⟩
  command := by
    intro bytes hmem
    simpa [timeouts] using hmem
  sends := by simp [countP_timeouts, RelayEvent.isSend]
  notAgain := by
    refine notAgain_of_split (fun e he ↦ ?_) (by simp [RelayEvent.isSend])
    rcases List.mem_cons.mp he with rfl | he
    · rfl
    · exact answer?_of_mem_timeouts he
  once := by simp [countP_timeouts, RelayEvent.completed?]
  first := by
    intro answer ok hmem
    simp [timeouts] at hmem

theorem mem_answered {cmd answer : List Byte} {k m : ℕ} {done : Bool} {e : RelayEvent}
    (he : e ∈ answered cmd answer k m done) :
    e = .send cmd ∨ e = .received [] ∨ e = .received answer ∨ ∃ ok, e = .forward answer ok := by
  unfold answered at he
  rcases List.mem_append.mp he with he | he
  · rcases List.mem_append.mp he with he | he
    · rcases List.mem_append.mp he with he | he
      · rcases mem_timeouts he with rfl | rfl <;> simp
      · rcases (by simpa using he : e = .send cmd ∨ e = .received answer) with rfl | rfl <;> simp
    · exact Or.inr (Or.inr (Or.inr ⟨false, List.eq_of_mem_replicate he⟩))
  · cases done with
    | true => exact Or.inr (Or.inr (Or.inr ⟨true, by simpa using he⟩))
    | false => cases he

/-- Up to the send that is answered, and behind it. -/
theorem answered_split (cmd answer : List Byte) (k m : ℕ) (done : Bool) :
    answered cmd answer k m done =
      (timeouts cmd k ++ [RelayEvent.send cmd]) ++ (RelayEvent.received answer ::
        (refusals answer m ++ if done then [RelayEvent.forward answer true] else [])) := by
  simp [answered]

theorem isSend_of_mem_behind {answer : List Byte} {m : ℕ} {done : Bool} {e : RelayEvent}
    (he : e ∈ RelayEvent.received answer ::
      (refusals answer m ++ if done then [RelayEvent.forward answer true] else [])) :
    e.isSend = false := by
  rcases List.mem_cons.mp he with rfl | he
  · rfl
  · rcases List.mem_append.mp he with he | he
    · rw [List.eq_of_mem_replicate he]
      rfl
    · cases done with
      | true =>
          rw [List.mem_singleton.mp he]
          rfl
      | false => cases he

theorem countP_answered (p : RelayEvent → Bool) (cmd answer : List Byte) (k m : ℕ) (done : Bool) :
    (answered cmd answer k m done).countP p =
      (timeouts cmd k).countP p + ([.send cmd, .received answer] : List RelayEvent).countP p +
        (refusals answer m).countP p +
          (if done then [.forward answer true] else [] : List RelayEvent).countP p := by
  rw [answered, List.countP_append, List.countP_append, List.countP_append]

theorem findSome?_answered (cmd : List Byte) {answer : List Byte} (hanswer : answer ≠ []) (k m : ℕ)
    (done : Bool) :
    (answered cmd answer k m done).findSome? RelayEvent.answer? = some answer := by
  have hsome : (RelayEvent.received answer).answer? = some answer := if_neg hanswer
  have hsend : (RelayEvent.send cmd).answer? = none := rfl
  rw [answered, List.append_assoc, List.append_assoc, List.findSome?_append, findSome?_timeouts,
    Option.none_or]
  simp [hsome, hsend]

theorem orderly_answered (cmd : List Byte) {answer : List Byte} (hanswer : answer ≠ []) {k : ℕ}
    (hk : k < 3) (m : ℕ) (done : Bool) :
    Orderly cmd (RelayEvent.lock :: answered cmd answer k m done ++ [RelayEvent.unlock]) := by
  have hmem : ∀ e, e ∈ (RelayEvent.lock :: answered cmd answer k m done ++ [.unlock]) →
      e = .lock ∨ e ∈ answered cmd answer k m done ∨ e = .unlock := by simp
  refine ⟨⟨rfl, ?_⟩, ⟨List.getLast?_concat, ?_⟩, ?_, ?_, ?_, ?_, ?_⟩
  · cases done <;> simp [List.count, countP_answered, countP_timeouts, countP_refusals]
  · cases done <;> simp [List.count, countP_answered, countP_timeouts, countP_refusals]
  · intro bytes hsend
    rcases hmem _ hsend with hlock | hin | hunlock
    · cases hlock
    · rcases mem_answered hin with heq | heq | heq | ⟨ok, heq⟩
      · exact RelayEvent.send.inj heq
      all_goals cases heq
    · cases hunlock
  · have hcount : (answered cmd answer k m done).countP RelayEvent.isSend = k + 1 := by
      cases done <;>
        simp [countP_answered, countP_timeouts, countP_refusals, List.countP_cons,
          RelayEvent.isSend]
    simp only [List.cons_append, List.countP_cons, List.countP_append, hcount, RelayEvent.isSend,
      List.countP_nil, Bool.false_eq_true, if_false]
    omega
  · -- up to the send that is answered nothing has come, and behind it nothing is sent
    rw [answered_split, ← List.cons_append, List.append_assoc]
    refine notAgain_of_split (fun e he ↦ ?_) (fun e he ↦ ?_)
    · rcases List.mem_cons.mp he with rfl | he
      · rfl
      · rcases List.mem_append.mp he with he | he
        · exact answer?_of_mem_timeouts he
        · rw [List.mem_singleton.mp he]
          rfl
    · rcases List.mem_append.mp he with he | he
      · exact isSend_of_mem_behind he
      · rw [List.mem_singleton.mp he]
        rfl
  · cases done <;>
      simp [countP_answered, countP_timeouts, countP_refusals, RelayEvent.completed?]
  · intro answer' ok hforward
    have hfirst : (RelayEvent.lock :: answered cmd answer k m done ++
        [RelayEvent.unlock]).findSome? RelayEvent.answer? = some answer := by
      rw [List.cons_append, List.findSome?_cons_of_isNone rfl, List.findSome?_append,
        findSome?_answered cmd hanswer]
      rfl
    rw [hfirst]
    rcases hmem _ hforward with hlock | hin | hunlock
    · cases hlock
    · rcases mem_answered hin with heq | heq | heq | ⟨ok, heq⟩
      · cases heq
      · cases heq
      · cases heq
      · exact congrArg some (RelayEvent.forward.inj heq).1.symm
    · cases hunlock

theorem orderly_of_course {cmd : List Byte} {log : List RelayEvent} {t : Transfer}
    (h : Course cmd log t) : Orderly cmd (log ++ [RelayEvent.unlock]) := by
  cases h with
  | silent hanswer => exact orderly_silent cmd
  | forwarded k m hpasses hanswer hretry =>
      exact orderly_answered cmd hanswer (by omega) m true
  | refused k m hpasses htried hanswer hretry =>
      exact orderly_answered cmd hanswer (by omega) m false

end Relay

theorem relayCmd_log (cmd : Packet) (inputs : List TransferInput) (flags : Flags) :
    (relayCmd cmd inputs flags).1.log = (Relay.loop cmd 3 inputs Relay.start).log ++ [.unlock] := by
  unfold relayCmd
  dsimp only
  split_ifs <;> rfl

theorem relayCmd_flags (cmd : Packet) (inputs : List TransferInput) (flags : Flags) :
    (relayCmd cmd inputs flags).2 =
      if (Relay.loop cmd 3 inputs Relay.start).transfer.answer.strCache = [] then
        { flags with bInCommunicationError := true }
      else if (Relay.loop cmd 3 inputs Relay.start).transfer.retry = 3 then
        { flags with bExtCommunicationError := true }
      else ⟨false, false⟩ := by
  unfold relayCmd
  simp only [Packet.getSize, List.length_eq_zero_iff]
  split_ifs <;> rfl

/-- The relay of a command.  The logged calls are those of `transferCmd`; they
stand between the lock and its release in the order required, and the flags tell
apart a device that did not answer, an answer the port took, and one it did not. -/
theorem transferCmd_relay (cmd : Packet) (inputs : List TransferInput) (flags : Flags) :
    transferCmd cmd inputs flags =
        ((relayCmd cmd inputs flags).1.transfer, (relayCmd cmd inputs flags).2) ∧
      Relay.Orderly cmd.strCache (relayCmd cmd inputs flags).1.log ∧
      ((relayCmd cmd inputs flags).1.log.findSome? RelayEvent.answer? = none →
        (relayCmd cmd inputs flags).2 = { flags with bInCommunicationError := true }) ∧
      ((∃ answer, .forward answer true ∈ (relayCmd cmd inputs flags).1.log) →
        (relayCmd cmd inputs flags).2 = ⟨false, false⟩) ∧
      ((relayCmd cmd inputs flags).1.log.findSome? RelayEvent.answer? ≠ none →
        (∀ answer, .forward answer true ∉ (relayCmd cmd inputs flags).1.log) →
        (relayCmd cmd inputs flags).2 = { flags with bExtCommunicationError := true }) := by
  have hcourse := Relay.course cmd inputs
  refine ⟨(Relay.relayCmd_transferCmd cmd inputs flags).symm, ?_, ?_⟩
  · rw [relayCmd_log]
    exact Relay.orderly_of_course hcourse
  · rw [relayCmd_log, relayCmd_flags]
    generalize (Relay.loop cmd 3 inputs Relay.start).transfer = t at hcourse ⊢
    generalize (Relay.loop cmd 3 inputs Relay.start).log = log at hcourse ⊢
    cases hcourse with
    | silent hanswer =>
        rw [if_pos hanswer]
        refine ⟨fun _ ↦ rfl, ?_, ?_⟩
        · rintro ⟨answer, hmem⟩
          simp [Relay.timeouts] at hmem
        · intro hsome
          refine absurd ?_ hsome
          rw [List.cons_append, List.findSome?_cons_of_isNone rfl, List.findSome?_append,
            Relay.findSome?_timeouts]
          rfl
    | forwarded k m hpasses hanswer hretry =>
        have hlast : RelayEvent.forward t.answer.strCache true ∈
            .lock :: Relay.answered cmd.strCache t.answer.strCache k m true ++ [.unlock] := by
          simp [Relay.answered]
        rw [if_neg hanswer, if_neg hretry]
        refine ⟨fun hnone ↦ ?_, fun _ ↦ rfl, fun _ hnever ↦ absurd hlast (hnever _)⟩
        rw [List.cons_append, List.findSome?_cons_of_isNone rfl, List.findSome?_append,
          Relay.findSome?_answered _ hanswer] at hnone
        cases hnone
    | refused k m hpasses htried hanswer hretry =>
        rw [if_neg hanswer, if_pos hretry]
        refine ⟨fun hnone ↦ ?_, ?_, fun _ _ ↦ rfl⟩
        · rw [List.cons_append, List.findSome?_cons_of_isNone rfl, List.findSome?_append,
            Relay.findSome?_answered _ hanswer] at hnone
          cases hnone
        · rintro ⟨answer, hmem⟩
          simp [Relay.answered, Relay.timeouts, Relay.refusals] at hmem

end DeviceAgent
