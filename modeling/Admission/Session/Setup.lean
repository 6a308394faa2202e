import Admission.Session.World
import Admission.Settings.Reading

/-!
Setting up the components of a session.
-/

namespace Admission

/-- What the layer of a session is to do. -/
structure LayerSetup where
  /-- The policy to limit by. -/
  limit : Option String := none
  keepsRecords : Bool := false
  /-- Settings as JSON text. -/
  settings : Option String := none
  /-- In place of the standard way to find out who calls. -/
  fixedIdentity : Option String := none
  sink : SinkKind := .memory
  sinkCapacity : Nat := Window.defaultCapacity

/-- A server to keep buckets and records on. -/
structure ServerSetup where
  /-- An address other than that of the server. -/
  url : Option String := none
  /-- The reply to every command, if the server is failing from the start. -/
  failing : Option String := none

structure Setup where
  /-- A catalogue as JSON text. -/
  policies : Option String := none
  clockMs : UInt64 := 0
  bucketFaults : BucketFaults := {}
  recordFaults : RecordFaults := {}
  deadline : Option Span := none
  terms : Record.Terms := {}
  layer : Option LayerSetup := none
  server : Option ServerSetup := none

/-- Why there is no session. -/
inductive SetupError
  | error (error : Error)
  | deadline (error : DeadlineError)
  /-- The settings cannot be read. -/
  | settings

/-- One bucket for all participants and one for all users. -/
def Resolver.fixed (name : String) : Resolver := fun _ _ scope _ =>
  match scope with
  | .participant => name ++ "/participant"
  | .user => name ++ "/user"

namespace Server

/-- Connects to a server that must answer. Nothing answers at another address than the server's own. -/
def connect (setup : ServerSetup) : Except Error Server :=
  let server := { empty .capping with failing := setup.failing }
  match setup.url with
  | some url =>
    if isAddress url then .error (.store (.unavailable "connection refused"))
    else .error (.setting ⟨"REDIS_URI", .described "not a server address"⟩)
  | none =>
    match server.run guard with
    | (.ok (), server) => .ok server
    | (.error e, _) => .error (.store e)

end Server

namespace Setup

def readCatalogue (s : Setup) : Except SetupError Catalogue :=
  match s.policies with
  | none => .ok .standard
  | some text =>
    match Catalogue.ofText text with
    | .ok c => .ok (Catalogue.standard.override c)
    | .error e => .error (.error (.policy e))

def readDeadline (s : Setup) : Except SetupError Deadline :=
  match s.deadline with
  | none => .ok .standard
  | some span => (Deadline.ofSpan span).mapError .deadline

def backing (s : Setup) : Except SetupError Backing :=
  match s.server with
  | none => .ok (.memory .empty .empty)
  | some setup => (Server.connect setup).mapError .error |>.map .served

def readLimit (c : Catalogue) : Option String → Except SetupError (Option Policy)
  | none => .ok none
  | some name => ((c.require name).mapError (.error ∘ .policy)).map some

/-- Settings that can be read and are valid. -/
def readSettings : Option String → Except SetupError Settings
  | none => .ok {}
  | some text =>
    match Settings.ofText? text with
    | none => .error .settings
    | some settings => (settings.validate.mapError (.error ∘ .setting)).map fun _ => settings

def build (s : Setup) : Except SetupError World := do
  let catalogue ← s.readCatalogue
  let deadline ← s.readDeadline
  let backing ← s.backing
  let setup := s.layer.getD {}
  let limit ← readLimit catalogue setup.limit
  let settings ← readSettings setup.settings
  return {
    clockMs := s.clockMs
    backing := backing
    bucketFaults := s.bucketFaults
    recordFaults := s.recordFaults
    catalogue := catalogue
    deadline := deadline
    terms := s.terms
    layer := {
      limit := limit
      keepsRecords := setup.keepsRecords
      resolver := (setup.fixedIdentity.map Resolver.fixed).getD .standard }
    settings := ⟨settings⟩
    sink := setup.sink.build setup.sinkCapacity }

end Setup

end Admission
