import Admission.Proofs.Traffic.Basic
import Admission.Session.World

/-! # Sessions as traffic

What a session on records in memory gives a request, late, at once or when the time limit is over,
is an answer that traffic may give it too. -/

namespace Admission

open Record

theorem Fault.exists_error_of_recordReply? {α : Type} {fault : Option Fault}
    {reply : Except StoreError α} (h : recordReply? fault = some reply) :
    ∃ e, reply = .error e := by
  unfold recordReply? at h
  split at h
  · cases h
    exact ⟨_, rfl⟩
  · cases h

namespace World

variable {w w' : World} {buckets : Bucket.Store} {records : Store} {h : Handler} {late : Bool}

theorem exists_signal_of_answer_record {call : Call} {reply : Except StoreError call.Answer}
    (hbacking : w.backing = .memory buckets records)
    (hanswer : w.answer h late (.record call) = some (reply, w')) :
    ∃ signal records', Signal.reply? records signal (.record call) = some (reply, records') ∧
      w'.backing = .memory buckets records' := by
  simp only [answer] at hanswer
  split at hanswer
  · next faulty hfault =>
    cases hanswer
    cases late with
    | true => cases hfault
    | false =>
        obtain ⟨e, rfl⟩ := Fault.exists_error_of_recordReply? hfault
        exact ⟨.failed e, records, rfl, hbacking⟩
  · cases hanswer
    rw [hbacking]
    exact ⟨.answered, _, rfl, rfl⟩

theorem backing_of_answer_bucket {call : Bucket.Call} {reply : Except StoreError call.Answer}
    (hbacking : w.backing = .memory buckets records)
    (hanswer : w.answer h late (.bucket call) = some (reply, w')) :
    ∃ buckets', w'.backing = .memory buckets' records := by
  simp only [answer] at hanswer
  split at hanswer
  · cases hanswer
    exact ⟨buckets, hbacking⟩
  · cases hanswer
    rw [hbacking]
    exact ⟨_, rfl⟩

theorem backing_of_answer_tell {event : Event} {reply : Unit}
    (hanswer : w.answer h late (.tell event) = some (reply, w')) : w'.backing = w.backing := by
  simp only [answer] at hanswer
  split at hanswer
  · cases hanswer
  · cases hanswer
    rfl

theorem exists_signal_of_answer_handler {reply : Except String Response}
    (hstatus : ∀ response, h.act = .respond response → Response.isStatus response.status = true)
    (hanswer : w.answer h late .handler = some (reply, w')) :
    (∀ records, (Signal.returned reply).reply? records .handler = some (reply, records)) ∧
      w' = w := by
  simp only [answer] at hanswer
  split at hanswer
  · cases hanswer
    exact ⟨fun _ => rfl, rfl⟩
  · next response hact =>
    cases hanswer
    simp [Signal.reply?, Signal.beside?, Signal.isResult, hstatus response hact]
  · cases hanswer

theorem exists_signal_of_answer {plan : Plan} {stage : Stage} {reply : (plan.await stage).Reply}
    (hbacking : w.backing = .memory buckets records)
    (hstatus : ∀ response, h.act = .respond response → Response.isStatus response.status = true)
    (hanswer : w.answer h late (plan.await stage) = some (reply, w')) :
    ∃ signal buckets' records',
      Signal.reply? records signal (plan.await stage) = some (reply, records') ∧
        w'.backing = .memory buckets' records' := by
  cases stage with
  | checking account now =>
      obtain ⟨buckets', h'⟩ := backing_of_answer_bucket hbacking hanswer
      exact ⟨.refilled reply, buckets', records, rfl, h'⟩
  | charging account cost now response =>
      obtain ⟨buckets', h'⟩ := backing_of_answer_bucket hbacking hanswer
      exact ⟨.deducted reply, buckets', records, rfl, h'⟩
  | handling verdict owned =>
      obtain ⟨hreply, rfl⟩ := exists_signal_of_answer_handler hstatus hanswer
      exact ⟨.returned reply, buckets, records, hreply records, hbacking⟩
  | telling event owned goal =>
      exact ⟨.done, buckets, records, rfl, (backing_of_answer_tell hanswer).trans hbacking⟩
  | pausing verdict key poll left =>
      cases hanswer
      exact ⟨.done, buckets, records, rfl, hbacking⟩
  | finished result => exact reply.elim
  | _ =>
      obtain ⟨signal, records', hreply, h'⟩ := exists_signal_of_answer_record hbacking hanswer
      exact ⟨signal, buckets, records', hreply, h'⟩

/-- Every answer that a session gives a request is one that traffic gives it in a move. -/
theorem exists_signal_of_answerAfter {plan : Plan} {stage : Stage}
    {reply : (plan.await stage).Reply} {limit : Option Deadline} {pause : Pause}
    (hbacking : w.backing = .memory buckets records)
    (hstatus : ∀ response, h.act = .respond response → Response.isStatus response.status = true)
    (hanswer : w.answerAfter limit h (plan.await stage) pause = some (reply, w')) :
    ∃ signal buckets' records',
      Signal.reply? records signal (plan.await stage) = some (reply, records') ∧
        w'.backing = .memory buckets' records' := by
  cases pause with
  | now =>
      have hanswer : w.answer h false (plan.await stage) = some (reply, w') := hanswer
      exact exists_signal_of_answer hbacking hstatus hanswer
  | after ms =>
      have hanswer : w.answer h true (plan.await stage) = some (reply, w') := hanswer
      exact exists_signal_of_answer hbacking hstatus hanswer
  | forever => cases hanswer
  | cut ms =>
      -- The time limit only cuts the calls of stores short, and these then fail.
      obtain ⟨cutReply, hcut, hsame⟩ := Option.map_eq_some_iff.mp hanswer
      cases hsame
      cases stage with
      | checking account now => exact ⟨.refilled reply, buckets, records, rfl, hbacking⟩
      | charging account cost now response =>
          exact ⟨.deducted reply, buckets, records, rfl, hbacking⟩
      | handling verdict owned => cases hcut
      | telling event owned goal => cases hcut
      | pausing verdict key poll left => cases hcut
      | finished result => exact reply.elim
      | _ =>
          obtain ⟨d, -, rfl⟩ := Option.map_eq_some_iff.mp hcut
          exact ⟨.failed (.timeout d.after), buckets, records, rfl, hbacking⟩

end World

end Admission
