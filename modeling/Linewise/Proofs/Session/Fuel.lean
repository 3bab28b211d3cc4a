import Linewise.Proofs.Machine.Stretch
import Linewise.Session.Worker

/-!
# Fuel

Fuel bounds the steps of a stretch, and no result depends on how much of it there is: what comes of
some fuel comes of more, from a stretch of an execution up to all that a worker does about its inbox
(`Worker.settle_mono`).
-/

namespace Linewise

open Wire (Command)

variable {fuel fuel' : Nat}

namespace Execution

variable {σ : Type} {w : Watcher σ} {e : Execution} {s : σ} {r : Outcome × Execution × σ}
  {stretches stretches' : Nat}

/-- A run that comes to an end does so with more fuel as well, and in the same way. -/
theorem finish_mono (hfuel : fuel ≤ fuel') (hstretches : stretches ≤ stretches')
    (h : e.finish w fuel stretches s = some r) : e.finish w fuel' stretches' s = some r := by
  induction stretches generalizing e s stretches' with
  | zero => cases h
  | succ stretches ih =>
    obtain ⟨more, rfl⟩ := Nat.exists_eq_add_one.2 (Nat.zero_lt_of_lt hstretches)
    have hrest := Nat.le_of_succ_le_succ hstretches
    rw [finish] at h ⊢
    cases hresume : e.resume w fuel s with
    | none => rw [hresume] at h; cases h
    | some result =>
      obtain ⟨outcome, e', s'⟩ := result
      rw [hresume] at h
      rw [resume_mono hfuel hresume]
      cases outcome with
      | paused line => exact ih hrest h
      | traceFailed failure => exact ih hrest h
      | finished => exact h
      | faulted fault => exact h

end Execution

namespace Session

variable {session : Session} {events : Array Wire.Event} {reaction : Reaction}

/-- With more fuel, the rest of a run is the same. -/
theorem finishUntraced_mono {execution : Execution} (hle : fuel ≤ fuel')
    (h : session.finishUntraced fuel execution events = some reaction) :
    session.finishUntraced fuel' execution events = some reaction := by
  rw [finishUntraced] at h ⊢
  cases hfinish : execution.finish session.watcher fuel fuel events with
  | none => rw [hfinish] at h; cases h
  | some result =>
    rw [hfinish] at h
    rwa [Execution.finish_mono hle hle hfinish]

/-- A stretch that comes to an end does so with more fuel as well, and with the same reaction. -/
theorem advance_mono (hle : fuel ≤ fuel') (h : session.advance fuel events = some reaction) :
    session.advance fuel' events = some reaction := by
  rw [advance] at h ⊢
  cases hexecution : session.execution with
  | none => rwa [hexecution] at h
  | some execution =>
    rw [hexecution] at h
    dsimp only at h ⊢
    cases hresume : execution.resume session.watcher fuel events with
    | none => rw [hresume] at h; cases h
    | some result =>
      obtain ⟨outcome, execution', told⟩ := result
      rw [hresume] at h
      rw [Execution.resume_mono hle hresume]
      cases outcome with
      | traceFailed failure =>
        -- After a failure there is the rest of the run, which takes fuel of its own.
        dsimp only at h ⊢
        split at h
        next hopen => rw [if_pos hopen]; exact finishUntraced_mono hle h
        next hclosed => rwa [if_neg hclosed]
      | paused line => exact h
      | finished => exact h
      | faulted fault => exact h

/-- A command that leads to something does so with more fuel as well, and to the same. -/
theorem handle_mono {command : Command} (hle : fuel ≤ fuel')
    (h : session.handle fuel command = some reaction) :
    session.handle fuel' command = some reaction := by
  cases command with
  | load => exact h
  | startExecution source =>
    rw [handle, start] at h ⊢
    split at h
    · exact h
    · split at h
      · exact advance_mono hle h
      · exact h
  | continueExecution =>
    rw [handle, proceed] at h ⊢
    split at h
    next hcontinue => rw [if_pos hcontinue]; exact advance_mono hle h
    next hstop => rwa [if_neg hstop]

/-- With more fuel, a text leads to the same. -/
theorem receive_mono {text : String} {r : Session × Array Wire.Event} (hle : fuel ≤ fuel')
    (h : session.receive fuel text = some r) : session.receive fuel' text = some r := by
  rw [receive] at h ⊢
  split at h
  · exact h
  next command _ =>
    cases hhandle : session.handle fuel command with
    | none => rw [hhandle] at h; cases h
    | some reaction =>
      rw [hhandle] at h
      rwa [handle_mono hle hhandle]

end Session

namespace Worker

variable {worker worker' : Worker}

/-- With more fuel, a worker does the same with its next text. -/
theorem work_mono (hle : fuel ≤ fuel') (h : worker.work fuel = some worker') :
    worker.work fuel' = some worker' := by
  rw [work] at h ⊢
  split at h
  · exact h
  · obtain ⟨result, hreceive, hresult⟩ := Option.map_eq_some_iff.1 h
    exact Option.map_eq_some_iff.2 ⟨result, Session.receive_mono hle hreceive, hresult⟩

theorem foldlM_work_mono {texts : List String} (hle : fuel ≤ fuel')
    (h : texts.foldlM (fun worker _ => worker.work fuel) worker = some worker') :
    texts.foldlM (fun worker _ => worker.work fuel') worker = some worker' := by
  induction texts generalizing worker with
  | nil => exact h
  | cons text texts ih =>
    rw [List.foldlM_cons] at h ⊢
    obtain ⟨next, hwork, hrest⟩ := Option.bind_eq_some_iff.1 h
    exact Option.bind_eq_some_iff.2 ⟨next, work_mono hle hwork, ih hrest⟩

theorem settle_mono (hle : fuel ≤ fuel') (h : worker.settle fuel = some worker') :
    worker.settle fuel' = some worker' :=
  foldlM_work_mono hle h

end Worker

end Linewise
