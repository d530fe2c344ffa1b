/-!
# Codes and statuses

Registering and removing answers with a `Status`: a code and, where there is something to say, a
message.  Two codes are successes; every other one, also a number without a meaning of its own,
is a failure.
-/

namespace Lifecycle

/-- What became of a request.  Codes are numbers, and a number without a meaning of its own is
kept as `other`. -/
inductive Code where
  | ok
  | fail
  | invalidArgument
  | alreadyExists
  | duplicateIgnored
  | notFound
  | invalidState
  | circularAlias
  | resolutionConflict
  | currentlyInCreation
  | creationNotAllowed
  | other (number : Int)
  deriving DecidableEq, Repr, Inhabited

namespace Code

/-- The number of a code. -/
def number : Code → Int
  | ok => 0
  | fail => 1
  | invalidArgument => 100
  | alreadyExists => 101
  | duplicateIgnored => 102
  | notFound => 103
  | invalidState => 204
  | circularAlias => 500
  | resolutionConflict => 501
  | currentlyInCreation => 600
  | creationNotAllowed => 601
  | other n => n

/-- The codes with a meaning of their own. -/
def named : List Code :=
  [ok, fail, invalidArgument, alreadyExists, duplicateIgnored, notFound, invalidState,
    circularAlias, resolutionConflict, currentlyInCreation, creationNotAllowed]

/-- The code with a number. -/
def ofNumber (n : Int) : Code :=
  (named.find? fun code => code.number = n).getD (other n)

@[simp]
theorem number_ofNumber (n : Int) : (ofNumber n).number = n := by
  unfold ofNumber
  cases found : named.find? fun code => code.number = n with
  | none => rfl
  | some code => simpa using List.find?_some found

/-- The name under which a code is reported. -/
def name : Code → String
  | ok => "OK"
  | fail => "Fail"
  | invalidArgument => "InvalidArgument"
  | alreadyExists => "AlreadyExists"
  | duplicateIgnored => "DuplicateIgnored"
  | notFound => "NotFound"
  | invalidState => "InvalidState"
  | circularAlias => "CircularAlias"
  | resolutionConflict => "ResolutionConflict"
  | currentlyInCreation => "CurrentlyInCreation"
  | creationNotAllowed => "CreationNotAllowed"
  | other _ => "Unknown"

/-- An ignored duplicate counts as success. -/
def isSuccess : Code → Bool
  | ok => true
  | duplicateIgnored => true
  | _ => false

end Code

/-- The answer to a request that can be refused: a code and an optional message. -/
structure Status where
  code : Code
  message : Option String
  deriving DecidableEq, Repr, Inhabited

namespace Status

/-- Plain success. -/
def ok : Status := ⟨.ok, none⟩

/-- A status with a message. -/
def saying (code : Code) (message : String) : Status := ⟨code, some message⟩

/-- Whether the request was granted. -/
def isSuccess (s : Status) : Bool := s.code.isSuccess

/-- The name of the code, and the message after a colon if there is one. -/
def text (s : Status) : String :=
  match s.message with
  | none => s.code.name
  | some message => s.code.name ++ ": " ++ message

/-- Hand a status on: any success becomes plain success, a failure stays as it is. -/
def forward (s : Status) : Status := if s.isSuccess then ok else s

/-- Hand a failure on with a remark in front of its message. -/
def forwardWith (remark : String) (s : Status) : Status :=
  if s.isSuccess then
    ok
  else
    saying s.code <|
      match s.message with
      | none => remark
      | some message => remark ++ ": " ++ message

end Status

end Lifecycle
