import Linewise.Proofs.Session.Transcript

/-!
# What a session tells of a text

A worker hands its session texts, and not only such as a controller sends. A text that spells a
command leads to what the command leads to, and to one more event if the command fails
(`Session.receive_of_decode`). All that is told of a request is a response between texts, and only a
response that the run cannot be reported any more is followed by some (`Session.Responds`).
-/

namespace Linewise

open Wire (Command Event)

/-- The event tells of a line. -/
def Wire.Event.isLine : Event → Bool
  | .lineExecuted .. => true
  | .ready | .loadFailed _ | .output _ | .programEnd | .error _ => false

namespace Session

variable {session after : Session} {e : Execution} {m : Machine} {told events : List Event}
  {response : Event} {text source : String} {texts : List String} {interpreter : Interpreter}
  {command : Command} {fuel : Nat}

/-! ## Responses -/

/-- The events are texts and one response. More texts follow only a response that the run cannot
    be reported any more. -/
def Responds (response : Event) (events : List Event) : Prop :=
  response.isResponse = true ∧ ∃ texts rest, events = outputs texts ++ response :: outputs rest ∧
    (rest ≠ [] → ∃ failure : TraceFailure, response = .error failure.text)

/-- Texts in front of a response do not make it another one. -/
theorem Responds.prepend (h : Responds response events) (texts : List String) :
    Responds response (outputs texts ++ events) := by
  obtain ⟨hresponse, more, rest, rfl, hrest⟩ := h
  exact ⟨hresponse, texts ++ more, rest, by rw [outputs_append, List.append_assoc], hrest⟩

theorem responds_single (hresponse : response.isResponse = true) : Responds response [response] :=
  ⟨hresponse, [], [], rfl, fun hne => absurd rfl hne⟩

/-- Texts tell of no line. -/
theorem isLine_of_mem_outputs {event : Event} (h : event ∈ outputs texts) :
    event.isLine = false := by
  obtain ⟨text, -, rfl⟩ := List.mem_map.1 h
  rfl

/-- No line is told when the response tells of none. -/
theorem Responds.forall_isLine_iff (h : Responds response events) :
    (∀ event ∈ events, event.isLine = false) ↔ response.isLine = false := by
  obtain ⟨-, texts, rest, rfl, -⟩ := h
  refine ⟨fun hall => hall response (by simp), fun hline event hevent => ?_⟩
  rcases List.mem_append.1 hevent with htext | hevent
  · exact isLine_of_mem_outputs htext
  · rcases List.mem_cons.1 hevent with rfl | htext
    · exact hline
    · exact isLine_of_mem_outputs htext

/-- What is told of a stretch is a response, and it is a line if the run can go on. -/
theorem Advances.responds (h : session.Advances m told after) :
    ∃ response, Responds response told ∧ response.isLine = after.state.canContinue := by
  obtain ⟨hruns, hquiet, hreports⟩ := h
  cases hreports with
  | line hstep hfits => exact ⟨_, (responds_single rfl).prepend _, rfl⟩
  | finished hstep => exact ⟨_, (responds_single rfl).prepend _, rfl⟩
  | faulted hstep => exact ⟨_, (responds_single rfl).prepend _, rfl⟩
  | @tooLarge line m' last failure rest outcome hstep hlarge hfailure hends =>
    have hresponds : Responds (.error failure.text)
        (.error failure.text :: outputs (Sight.texts rest ++ outcome.epilogue)) :=
      ⟨rfl, [], _, rfl, fun _ => ⟨failure, rfl⟩⟩
    exact ⟨_, hresponds.prepend _, rfl⟩

/-- An advance changes the run and the state of a session alone. -/
theorem Advances.continues (h : session.Advances m told after) : session.Continues after := by
  cases h
  exact ⟨rfl, rfl, rfl, rfl⟩

/-! ## Texts -/

/-- What is told of a reaction: its events, and the error that ended it, if there is one. -/
def Reaction.reported (reaction : Reaction) : Session × Array Event :=
  (reaction.session, match reaction.result with
    | .ok () => reaction.events
    | .error error => reaction.session.report reaction.events error)

/-- A text that spells a command leads to what the command leads to. -/
theorem receive_of_decode (h : Command.decode text = .ok command) :
    session.receive fuel text = (session.handle fuel command).map Reaction.reported := by
  rw [receive, h]
  dsimp only
  cases session.handle fuel command with
  | none => rfl
  | some reaction =>
    obtain ⟨after, events, result⟩ := reaction
    cases result <;> rfl

/-- A new session that has an interpreter to load says so. -/
theorem receive_load_new (id : Wire.SessionId) (limits : SnapshotLimits)
    (interpreter : Interpreter) (fuel : Nat) :
    (new id limits (.ok interpreter)).receive fuel Command.load.encode =
      some ({ new id limits (.ok interpreter) with loaded := some (.ok interpreter) },
        #[.output loadingText, .output loadedText, .ready]) := by
  rw [receive_of_decode (Command.decode_encode _)]
  rfl

/-- A request that the session refuses is answered with the error. -/
theorem reported_error (hopen : session.isOpen = true) (told : Array Event)
    (error : SessionError) :
    Reaction.reported ⟨session, told, .error error⟩ =
      (session, told.push (.error error.message)) := by
  rw [Reaction.reported]
  dsimp only
  rw [report, tell_eq hopen]

/-- A session that is asked to start a run tells some texts, and then of its first stretch or why
    the script is refused. -/
theorem receive_startExecution {told : Array Event} (hopen : session.isOpen = true)
    (hready : session.interpreter = .ok interpreter)
    (hdecode : Command.decode text = .ok (.startExecution source))
    (h : session.receive fuel text = some (after, told)) :
    ∃ loaded texts new, session.Continues loaded ∧ told.toList = outputs texts ++ new ∧
      ((∃ fault, interpreter.compile source = .error fault ∧ new = [.error fault.text] ∧
          loaded = after ∧ after.state = .errored) ∨
        ∃ code, interpreter.compile source = .ok code ∧
          loaded.Advances (.start code interpreter.maxCallDepth) new after) := by
  obtain ⟨loaded, heard, texts, hcontinues, -, -, hheard, hstart⟩ := exists_start_eq hopen source
  have hloadedOpen := hcontinues.isOpen.trans hopen
  rw [receive_of_decode hdecode, handle, hstart, hready] at h
  dsimp only at h
  cases hcompile : interpreter.compile source with
  | error fault =>
    simp only [hcompile, fail, reply_ended hloadedOpen, Option.map_some] at h
    cases h
    refine ⟨{ loaded with execution := none, state := .errored }, texts, [.error fault.text],
      hcontinues.trans ⟨rfl, rfl, rfl, rfl⟩, ?_, .inl ⟨fault, rfl, rfl, rfl, rfl⟩⟩
    rw [Array.toList_push, hheard]
  | ok code =>
    simp only [hcompile] at h
    -- The reaction is that of the first advance of the run that was started.
    obtain ⟨reaction, hadvance, heq⟩ := Option.map_eq_some_iff.1 h
    let started : Session :=
      { loaded with execution := some (.start code interpreter.maxCallDepth true) }
    have hstartedOpen : started.isOpen = true := hloadedOpen
    obtain ⟨new, hadvances, hevents, hresult⟩ :=
      advances_of_advance hstartedOpen rfl ⟨rfl, rfl⟩ hadvance
    rw [Reaction.reported, hresult] at heq
    cases heq
    refine ⟨started, texts, new, hcontinues.trans ⟨rfl, rfl, rfl, rfl⟩, ?_,
      .inr ⟨code, rfl, hadvances⟩⟩
    rw [hevents]
    simp [hheard]

/-- A session that is asked to go on with its run tells of the next stretch. -/
theorem receive_continueExecution {told : Array Event} (hopen : session.isOpen = true)
    (hstate : session.state.canContinue = true) (hexecution : session.execution = some e)
    (hwatched : e.IsWatched) (hdecode : Command.decode text = .ok .continueExecution)
    (h : session.receive fuel text = some (after, told)) :
    session.Advances e.machine told.toList after := by
  rw [receive_of_decode hdecode, handle, proceed_eq_advance hstate] at h
  obtain ⟨reaction, hadvance, heq⟩ := Option.map_eq_some_iff.1 h
  obtain ⟨new, hadvances, hevents, hresult⟩ :=
    advances_of_advance hopen hexecution hwatched hadvance
  rw [Reaction.reported, hresult] at heq
  cases heq
  rw [hevents]
  simpa using hadvances

/-- A session without a run to go on with refuses to. -/
theorem receive_refuses (hopen : session.isOpen = true)
    (hstate : session.state.canContinue = false)
    (hdecode : Command.decode text = .ok .continueExecution) (fuel : Nat) :
    session.receive fuel text =
      some (session, #[.error (SessionError.cannotContinue session.state).message]) := by
  rw [receive_of_decode hdecode, handle, proceed, if_neg (by rw [hstate]; rintro ⟨⟩),
    Option.map_some, reported_error hopen]
  rfl

/-- A text that spells no command is answered with the complaint about it. -/
theorem receive_malformed {complaint : Wire.Malformed} (hopen : session.isOpen = true)
    (hdecode : Command.decode text = .error complaint) (fuel : Nat) :
    session.receive fuel text =
      some (session, #[.error (SessionError.malformed complaint).message]) := by
  rw [receive, hdecode]
  dsimp only
  rw [report, tell_eq hopen]
  rfl

end Session

end Linewise
