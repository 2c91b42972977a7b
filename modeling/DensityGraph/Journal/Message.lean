/-!
# Messages

What happens to a model is reported in messages of several levels, on channels that
are children of one package logger.
-/

namespace DensityGraph

inductive Level where
  | debug
  | info
  | warning
  | error
  | critical
deriving Repr, DecidableEq, Inhabited

namespace Level

def all : List Level :=
  [debug, info, warning, error, critical]

def number : Level → Nat
  | debug => 10
  | info => 20
  | warning => 30
  | error => 40
  | critical => 50

def name : Level → String
  | debug => "DEBUG"
  | info => "INFO"
  | warning => "WARNING"
  | error => "ERROR"
  | critical => "CRITICAL"

end Level

inductive Channel where
  | nodes
  | settings
  | dag
deriving Repr, DecidableEq, Inhabited

def Channel.logger : Channel → String
  | nodes => "probdag.nodes"
  | settings => "probdag.config"
  | dag => "probdag.dag"

structure Message where
  level : Level
  logger : String
  text : String
deriving Repr, DecidableEq, Inhabited

def Channel.message (c : Channel) (level : Level) (text : String) : Message :=
  ⟨level, c.logger, text⟩

end DensityGraph
