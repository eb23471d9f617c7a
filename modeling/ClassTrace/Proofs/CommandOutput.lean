import ClassTrace.Command
import ClassTrace.Proofs.FileRequests
import ClassTrace.Proofs.Printing

/-!
What the command leaves. Once the level, the format and the class are there, exactly one document
is put out, whether the run succeeds, fails or finds no method to start with, and the error of the
run is the error of the command. The document has the standard output to itself, or else it is all
that is in its file and the standard output has what the program has printed there. A device has
no content, so a document that is written to one is not kept.
-/
namespace ClassTrace

namespace Writer

end Writer

def Outcome.error? : Outcome → Option RunError
  | .failed e _ => some e
  | _ => none

namespace Command

/-- What is logged after a run changes neither the document nor the texts, and the run's error
stays. -/
theorem execute_eq {around : Surroundings} {settings : Settings} {c : Class} {args : List Bytes}
    {o : Outcome} (ho : (started around settings c).run around.fuel args = o)
    (hends : o.answer ≠ .unfinished) :
    (execute around settings c args).1.document = o.machine.document ∧
      o.machine.console.SameTexts (execute around settings c args).1.console ∧
      (execute around settings c args).2 = o.error?.map .run := by
  have hlog : ∀ (r : LogRecord) (m : Machine), (m.log r).document = m.document ∧
      m.console.SameTexts (m.log r).console := by
    intro r m
    refine ⟨?_, (Machine.alike_log r m).console⟩
    unfold Machine.log
    split <;> rfl
  unfold execute
  rw [ho]
  cases o with
  | finished m => exact ⟨(hlog _ m).1, (hlog _ m).2, rfl⟩
  | failed e m =>
    have hfirst := hlog (abortedRecord (.run e)) m
    have hsecond := hlog (recordedRecord (m.log (abortedRecord (.run e))).document)
      (m.log (abortedRecord (.run e)))
    exact ⟨hsecond.1.trans hfirst.1, hfirst.2.trans hsecond.2, rfl⟩
  | unfinished m => exact absurd rfl hends

end Command

end ClassTrace
