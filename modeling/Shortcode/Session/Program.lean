import Shortcode.Attributes.Basic
import Shortcode.Counters
import Shortcode.Registry
import Shortcode.TagMatch

/-! What a session can be asked to do, and what it answers. A program asks step by step and may
depend on every answer; handlers are programs too. -/
namespace Shortcode

/-- What a handler is told. -/
structure Call where
  attributes : Attributes
  content : Option Text
  tag : Text

/-- The enclosed text, empty if there is none. -/
def Call.body (c : Call) : Text := c.content.getD []

inductive Answer where
  | nothing
  | config (c : Config)
  /-- The tags of a registry when a snapshot of it was taken. -/
  | snapshot (tags : List Text)
  /-- The tags of a registry after a change, and what it reported. -/
  | changed (tags : List Text) (reports : List Registration)
  /-- The label of a handler, if there is one. -/
  | handler (label : Option Text)
  | membership (found : Bool)
  | names (tags : List Text)
  | text (t : Text)
  | attributes (a : Attributes)
  | metrics (c : Option Counters)
  /-- The answers inside a block, whether it was left by an error, and the configuration after it. -/
  | block (answers : List Answer) (raised : Bool) (config : Config)
  | profile (answers : List Answer) (c : Counters)
  | thread (answers : List Answer)
  | failed (f : Fault)

/-- A handler under the label by which it is reported. -/
structure Labelled (η : Type) where
  label : Text
  handler : η

/-- A single request. Engines, registries and snapshots go by identifiers; an engine stands for its
registry where one is needed. -/
inductive Step (η : Type) where
  | newRegistry (id : Text)
  | newEngine (id : Text) (config : Config) (registry : Option Text)
  | snapshot (on id : Text)
  | change (on : Text) (c : Change (Labelled η))
  | lookup (on tag : Text)
  | has (on tag : Text)
  | names (on : Text)
  | render (on content : Text)
  | strip (on content : Text)
  | dispatch (on : Text) (p : TagParts) (snapshot : Text)
  | parse (t : Text)
  | getConfig
  | setConfig (c : Config)
  | resetConfig
  | metrics

/-- Where a part of a program can run: under a configuration, in a block that may be left by an
error; under a profile of its own; in a thread of its own. -/
inductive Scope where
  | config (c : Config) (raises : Bool)
  | profile
  | thread

/-- A program ends with a text and some answers that it puts on record, or with a fault. -/
inductive Program (η : Type) where
  | done (out : Text) (notes : List Answer)
  | raise (f : Fault)
  | step (s : Step η) (next : Answer → Program η)
  | scoped (s : Scope) (body : Program η) (next : Answer → Program η)

/-- One request of a session. -/
inductive Request (η : Type) where
  | step (s : Step η)
  | scoped (s : Scope) (body : Program η)

namespace Program
variable {η : Type}

/-- Asks, and goes on with the answer. -/
def ask : Request η → (Answer → Program η) → Program η
  | .step s, next => .step s next
  | .scoped s body, next => .scoped s body next

/-- Makes all requests in turn and puts all answers on record, after those already given. -/
def askAll (out : Text) : (answers : List Answer) → List (Request η) → Program η
  | answers, [] => .done out answers
  | answers, r :: rest => ask r fun a => askAll out (answers ++ [a]) rest

/-- Goes on with the text of an answer; a fault is passed on. -/
def withText (next : Text → Program η) : Answer → Program η
  | .text t => next t
  | .failed f => .raise f
  | _ => next []

end Program
end Shortcode
