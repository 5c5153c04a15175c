import QScope.ClientSettings
import QScope.Editing
import QScope.Uris

/-! # Language server: documents, client settings and what each message answers and publishes -/
namespace QScope.LanguageServer
open Editing

/-- The only state between messages: settings, disabled rules and the texts of open documents, each
by its decoded name. -/
structure Server where
  settings : Settings
  disabled : List Text
  documents : List (Text × Text)

namespace Server

def start (settings : Settings) (disabled : List Text) : Server := ⟨settings,disabled,[]⟩

def text (s : Server) (uri : Text) : Text := (s.documents.lookup (Uris.decode uri)).getD []

def store (s : Server) (uri text : Text) : Server :=
  let name := Uris.decode uri
  {s with documents := (name,text) :: s.documents.filter (·.1 != name)}

def remove (s : Server) (uri : Text) : Server :=
  let name := Uris.decode uri
  {s with documents := s.documents.filter (·.1 != name)}

/-- Every request parses the whole document anew. -/
def tokens (s : Server) (uri : Text) : List AnnotatedToken := Annotating.parse uri (s.text uri)

end Server

inductive Message
  | opened (uri text : Text)
  | changed (uri text : Text)
  | closed (uri : Text)
  | configured (payload : Payload)
  | symbols (uri : Text)
  | references (uri : Text) (cursor : Position)
  | definition (uri : Text) (cursor : Position)
  | rename (uri : Text) (cursor : Position) (newName : Text)
  | completion (uri : Text) (cursor : Position)

inductive Reply
  | nothing
  | settings (settings : Settings)
  | symbols (symbols : Forest Symbol)
  | locations (uri : Text) (ranges : List Range)
  | edits (uri : Text) (edits : List TextEdit)
  | completions (items : List CompletionItem)
  | obstructed (obstacle : Obstacle)

namespace Reply

/-- An outline that is nested too deep is not sent. -/
def ofSymbols (symbols : Forest Symbol) : Reply :=
  if symbols.height ≤ Limits.symbolLevels then .symbols symbols else .obstructed .deepNesting

/-- Without edits there is nothing to reply. -/
def ofEdits (uri : Text) (edits : List TextEdit) : Reply :=
  if edits.isEmpty then .nothing else .edits uri edits

/-- The reply for a cursor, which must be where an editor can set one. -/
def ifAddressable (cursor : Position) (reply : Reply) : Reply :=
  if cursor.isAddressable then reply else .obstructed .coordinate

end Reply

/-- The findings of one document, in place of those published before. -/
structure Publication where
  uri : Text
  notices : List Notice
deriving DecidableEq

namespace Server

/-- The server after a message. Requests leave it as it is. -/
def receive (s : Server) : Message → Server
  | .opened uri text | .changed uri text => s.store uri text
  | .closed uri => s.remove uri
  | .configured payload => {s with settings := payload.applyTo s.settings}
  | _ => s

/-- The reply to a message just received. -/
def reply (s : Server) : Message → Reply
  | .opened _ _ | .changed _ _ | .closed _ => .nothing
  | .configured _ => .settings s.settings
  | .symbols uri => .ofSymbols (documentSymbols s.settings.debug (s.tokens uri))
  | .references uri cursor =>
    .ifAddressable cursor (.locations uri (locations .reference (s.tokens uri) cursor))
  | .definition uri cursor =>
    .ifAddressable cursor (.locations uri (locations .definition (s.tokens uri) cursor))
  | .rename uri cursor newName =>
    .ifAddressable cursor (.ofEdits uri (renameEdits (s.tokens uri) cursor newName))
  | .completion uri cursor =>
    .ifAddressable cursor (.completions (completions (s.tokens uri) cursor))

/-- What is published on a message just received: while linting is on, the findings in a document
whose text has arrived, and none for a document that is closed. -/
def publish (s : Server) : Message → List Publication
  | .opened uri _ | .changed uri _ =>
    if s.settings.linting then [⟨uri,notices s.disabled (s.tokens uri)⟩] else []
  | .closed uri => [⟨uri,[]⟩]
  | _ => []

/-- The replies to a sequence of messages, with what is published on each. -/
def run (s : Server) : List Message → List (Reply × List Publication)
  | [] => []
  | m :: ms => ((s.receive m).reply m,(s.receive m).publish m) :: (s.receive m).run ms

end Server
end QScope.LanguageServer
