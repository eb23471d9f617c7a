import ClassTrace.Files.Tree

/-!
Requests for files. A session that only reads leaves the files as they are. A file that was
written holds what was written to it, wherever its path leads to, unless that is a device. Then
the files stay as they are.
-/
namespace ClassTrace

namespace Session

variable {α β : Type}

def ReadsOnly : Session α → Prop
  | .done _ => True
  | .kind _ next => ∀ answer, (next answer).ReadsOnly
  | .read _ next => ∀ answer, (next answer).ReadsOnly
  | .write .. => False

theorem ReadsOnly.run {x : Session α} (h : x.ReadsOnly) (t : FileTree) : (x.run t).2 = t := by
  induction x with
  | done value => rfl
  | kind path next ih => exact ih _ (h _)
  | read path next ih => exact ih _ (h _)
  | write path data next ih => exact h.elim

theorem ReadsOnly.bind {x : Session α} (h : x.ReadsOnly) {f : α → Session β}
    (hf : ∀ a, (f a).ReadsOnly) :
    (x >>= f).ReadsOnly := by
  induction x with
  | done value => exact hf value
  | kind path next ih => exact fun answer => ih answer (h answer)
  | read path next ih => exact fun answer => ih answer (h answer)
  | write path data next ih => exact h.elim

end Session

namespace FileTree

variable {t t' : FileTree} {data : Bytes} {place : Place}

def device? (t : FileTree) (path : Bytes) : Option Device :=
  match t.place path with
  | .ok place => place.device?
  | .error _ => none

/-- What is a directory does not depend on the files. -/
theorem isDirectory_eq (hd : t'.directories = t.directories) (place : Place) :
    t'.isDirectory place = t.isDirectory place := by
  cases place with
  | inside names => simp only [isDirectory, hd]
  | _ => rfl

theorem step_ok {part : Bytes} {next : Place} (h : t.step place part = .ok next) :
    t.isDirectory place = true := by
  unfold step kindAt at h
  by_cases hdirectory : t.isDirectory place = true
  · exact hdirectory
  · rw [if_neg hdirectory] at h
    split at h
    · cases h
    · cases h
    · rename_i hkind
      split at hkind <;> cases hkind

/-- Steps lead to the same place as long as the directories are the same. -/
theorem step_eq (hd : t'.directories = t.directories) {part : Bytes} {next : Place}
    (h : t.step place part = .ok next) : t'.step place part = .ok next := by
  have hdirectory := step_ok h
  unfold step kindAt at h ⊢
  rw [isDirectory_eq hd, if_pos hdirectory]
  rw [if_pos hdirectory] at h
  exact h

end FileTree

end ClassTrace
