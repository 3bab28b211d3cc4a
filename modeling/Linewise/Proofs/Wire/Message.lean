import Linewise.Proofs.Bindings
import Linewise.Proofs.Decimal.Range
import Linewise.Proofs.Wire.SessionId
import Linewise.Proofs.Wire.Tree
import Linewise.Wire.Message

/-!
# Messages read back

Commands, events and envelopes are read back from their texts (`Command.decode_encode`,
`Event.decode_encode`, `Envelope.decode_encode`), whatever texts, lines and bindings they carry. All
of their trees pass the checks of a reader (`Json.Sendable`): the numbers are those of lines, which
are finite, and the trees are far less deep than a message may be.
-/

namespace Linewise.Wire

/-- What is written and read item by item is read back. -/
theorem mapM_map_eq_some {α β : Type} {write : α → β} {read? : β → Option α}
    (h : ∀ x, read? (write x) = some x) (xs : List α) : (xs.map write).mapM read? = some xs := by
  induction xs with
  | nil => rfl
  | cons x xs ih =>
    rw [List.map_cons, List.mapM_cons, h, ih]
    rfl

/-! ## Trees -/

namespace Json

theorem soundMembers_iff {members : List (Option String × Json)} : soundMembers members = true ↔
    ∀ member ∈ members, member.1.isSome = true ∧ member.2.isSound = true := by
  induction members with
  | nil => simp [soundMembers]
  | cons member rest ih => simp [soundMembers, ih, and_assoc]

theorem depthOfMembers_le_iff {n : Nat} {members : List (Option String × Json)} :
    depthOfMembers members ≤ n ↔ ∀ member ∈ members, member.2.depth ≤ n := by
  induction members with
  | nil => simp [depthOfMembers]
  | cons member rest ih => rw [depthOfMembers, Nat.max_le, ih, List.forall_mem_cons]

/-- A tree that is read back from its text, passes the checks of a reader and nests at most
    `n` levels. -/
structure Sendable (n : Nat) (json : Json) : Prop where
  isWritable : json.IsWritable
  isSound : json.isSound = true
  depth_le : json.depth ≤ n

variable {n : Nat} {members : List (String × Json)}

theorem sendable_ofText (text : String) : (ofText text).Sendable n :=
  ⟨trivial, rfl, Nat.zero_le n⟩

/-- The number of a line is finite. -/
theorem sendable_ofNat (line : Line) : (ofNat line.toNat).Sendable n := by
  refine ⟨fun _ => rfl, ?_, Nat.zero_le n⟩
  rw [ofNat, Json.isSound, JsonNumber.isFinite, Decimal.isInf_nearest line.toNat_lt]
  rfl

/-- An object whose members can be sent can be sent itself, one level deeper. -/
theorem sendable_ofMembers (h : ∀ member ∈ members, member.2.Sendable n) :
    (ofMembers members).Sendable (n + 1) := by
  have hnamed : ∀ member ∈ members.map fun named => (some named.1, named.2),
      member.1.isSome = true ∧ member.2.Sendable n := by
    intro member hmember
    obtain ⟨named, hmem, rfl⟩ := List.mem_map.1 hmember
    exact ⟨rfl, h named hmem⟩
  refine ⟨?_, ?_, Nat.succ_le_succ ?_⟩
  · exact writableMembers_iff.2 fun member hmember => (hnamed member hmember).2.isWritable
  · exact soundMembers_iff.2 fun member hmember =>
      ⟨(hnamed member hmember).1, (hnamed member hmember).2.isSound⟩
  · exact depthOfMembers_le_iff.2 fun member hmember => (hnamed member hmember).2.depth_le

end Json

/-! ## Fields -/

namespace Fields

theorem members?_map (members : List (String × Json)) :
    members? (members.map fun (name, value) => (some name, value)) = some members := by
  rw [members?]
  refine mapM_map_eq_some ?_ members
  exact fun _ => rfl

theorem ofJson?_ofMembers (members : List (String × Json)) :
    ofJson? (.ofMembers members) = some (named members) := by
  rw [Json.ofMembers, ofJson?, members?_map, Option.map_some]

/-- The tag of a message is its first member, and no other member has its name. -/
theorem tagged?_cons {tag name : String} {members : List (String × Json)}
    (h : ∀ member ∈ members, member.1 ≠ tag) :
    (named ((tag, .ofText name) :: members)).tagged? tag = some (name, named members) := by
  have hothers : (members.filter fun member => member.1 = tag) = [] := by
    simpa [List.filter_eq_nil_iff] using h
  have hfields : (members.filter fun member => member.1 ≠ tag) = members := by
    simpa [List.filter_eq_self] using h
  rw [tagged?, member?, List.filter_cons_of_pos (by simp), hothers]
  simp only [Json.ofText]
  rw [List.filter_cons_of_neg (by simp), hfields]

end Fields

/-- The tag and the fields of a message are read back from its tree. -/
theorem readTagged?_render {tag name : String} {members : List (String × Json)}
    (hsendable : ∀ member ∈ members, member.2.Sendable 1)
    (htag : ∀ member ∈ members, member.1 ≠ tag) :
    readTagged? tag (Json.ofMembers ((tag, .ofText name) :: members)).render =
      some (name, .named members) := by
  have htree : (Json.ofMembers ((tag, .ofText name) :: members)).Sendable 2 :=
    Json.sendable_ofMembers (List.forall_mem_cons.2 ⟨Json.sendable_ofText name, hsendable⟩)
  have hdepth := Nat.le_trans htree.depth_le (by decide : 2 ≤ Json.deepest)
  simp [readTagged?, Json.read?_render htree.isWritable, htree.isSound, hdepth,
    Fields.ofJson?_ofMembers, Fields.tagged?_cons htag]

/-- A line is read back from its number. -/
theorem line?_ofNat (line : Line) : line? (.ofNat line.toNat) = some line := by
  have hlt : line.toNat < UInt32.size := line.toNat_lt
  simp [line?, Json.ofNat, hlt]

/-- Bindings of texts are read back from an object of them. -/
theorem texts?_ofMembers (scope : Bindings String) :
    texts? (.ofMembers (scope.map Json.ofText).entries) = some scope := by
  have htexts : (scope.map Json.ofText).entries.mapM (fun (name, value) =>
      (text? value).map fun text => (name, text)) = some scope.entries := by
    refine mapM_map_eq_some ?_ scope.entries
    exact fun _ => rfl
  rw [Json.ofMembers, texts?, Fields.members?_map]
  simp only [bind, Option.bind_some, htexts, Bindings.ofList_entries]
  rfl

/-! ## Messages -/

/-- A command is read back from its text. -/
theorem Command.decode_encode (command : Command) : decode command.encode = .ok command := by
  cases command with
  | load =>
    have hread := @readTagged?_render "command" "initialize" [] nofun nofun
    rw [decode, encode, toJson, name, hread]
    rfl
  | startExecution source =>
    have hread := @readTagged?_render "command" "start_execution" [("source", .ofText source)]
      (by simp [Json.sendable_ofText]) (by simp)
    rw [decode, encode, toJson, name, hread]
    rfl
  | continueExecution =>
    have hread := @readTagged?_render "command" "continue_execution" [] nofun nofun
    rw [decode, encode, toJson, name, hread]
    rfl

namespace Event

/-- The members of an event besides its tag. -/
def members : Event → List (String × Json)
  | loadFailed message => [("message", .ofText message)]
  | output text => [("text", .ofText text)]
  | lineExecuted line scope =>
    [("line", .ofNat line.toNat), ("variables", .ofMembers (scope.map Json.ofText).entries)]
  | error message => [("message", .ofText message)]
  | ready | programEnd => []

theorem toJson_eq (event : Event) :
    event.toJson = .ofMembers (("type", .ofText event.name) :: event.members) := by
  cases event <;> rfl

/-- All fields of an event can be sent. -/
theorem sendable_members (event : Event) : ∀ member ∈ event.members, member.2.Sendable 1 := by
  cases event with
  | lineExecuted line scope =>
    have hscope : ∀ member ∈ (scope.map Json.ofText).entries, member.2.Sendable 0 := by
      intro member hmember
      obtain ⟨entry, -, rfl⟩ := List.mem_map.1 hmember
      exact Json.sendable_ofText entry.2
    simp [members, Json.sendable_ofNat, Json.sendable_ofMembers hscope]
  | _ => simp [members, Json.sendable_ofText]

theorem ne_type_of_mem_members (event : Event) : ∀ member ∈ event.members, member.1 ≠ "type" := by
  cases event <;> simp [members]

/-- The tree of an event can be sent as a text. -/
theorem sendable_toJson (event : Event) : event.toJson.Sendable 2 := by
  rw [toJson_eq]
  exact Json.sendable_ofMembers
    (List.forall_mem_cons.2 ⟨Json.sendable_ofText _, event.sendable_members⟩)

/-- An event is read back from its tag and its members. -/
theorem ofFields?_members (event : Event) :
    ofFields? event.name (.named event.members) = some event := by
  cases event with
  | lineExecuted line scope =>
    have hvalues : (Fields.named (lineExecuted line scope).members).values?
        ["line", "variables"] =
          some [.ofNat line.toNat, .ofMembers (scope.map Json.ofText).entries] := rfl
    simp [ofFields?, name, hvalues, line?_ofNat, texts?_ofMembers]
  | _ => rfl

/-- An event is read from the tree that it is written as. -/
theorem ofJson?_toJson (event : Event) : ofJson? event.toJson = some event := by
  rw [toJson_eq, ofJson?, Fields.ofJson?_ofMembers]
  simp [Fields.tagged?_cons event.ne_type_of_mem_members, ofFields?_members]

/-- An event is read back from its text. -/
theorem decode_encode (event : Event) : decode event.encode = .ok event := by
  have hread := @readTagged?_render "type" event.name event.members event.sendable_members
    event.ne_type_of_mem_members
  rw [decode, encode, toJson_eq, hread, Option.bind_some]
  simp only [ofFields?_members]

end Event

/-- An envelope is read back from its text. -/
theorem Envelope.decode_encode (envelope : Envelope) : decode envelope.encode = .ok envelope := by
  obtain ⟨session, event⟩ := envelope
  have hevent := event.sendable_toJson
  have htree : (toJson ⟨session, event⟩).Sendable 3 := by
    refine Json.sendable_ofMembers ?_
    simp [Json.sendable_ofText, hevent]
  have hvalues : (Fields.named [("session", .ofText session.text),
      ("event", event.toJson)]).values? ["session", "event"] =
        some [.ofText session.text, event.toJson] := rfl
  have hdepth : event.toJson.depth < Json.deepest := Nat.lt_of_le_of_lt hevent.depth_le (by decide)
  -- The event is checked again as a message of its own.
  have hof : ofJson? (toJson ⟨session, event⟩) = some ⟨session, event⟩ := by
    have htext : text? (.ofText session.text) = some session.text := rfl
    rw [toJson, ofJson?, Fields.ofJson?_ofMembers]
    simp only [bind, Option.bind_some, hvalues, htext, SessionId.ofText?_text, hevent.isSound,
      hdepth, Event.ofJson?_toJson]
    rfl
  rw [decode, encode, Json.read?_render htree.isWritable, Option.bind_some, hof]

/-- Whatever is sent arrives: commands, events and envelopes are all read back from their texts. -/
theorem messages_round_trip :
    (∀ command : Command, Command.decode command.encode = .ok command) ∧
      (∀ event : Event, Event.decode event.encode = .ok event) ∧
      ∀ envelope : Envelope, Envelope.decode envelope.encode = .ok envelope :=
  ⟨Command.decode_encode, Event.decode_encode, Envelope.decode_encode⟩

end Linewise.Wire
