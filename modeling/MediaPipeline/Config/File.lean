import MediaPipeline.Config.Settings
import MediaPipeline.Error
import MediaPipeline.Toml.Document

/-!
# Configuration files

A configuration file has a table `logging` and a table `pipeline`. What it leaves out keeps its
default, and what it has beyond the settings is ignored.
-/

namespace MediaPipeline

structure Config where
  /-- Which log messages are wanted. -/
  level : String
  pipeline : PipelineSettings Float

namespace Config

def default : Config := ⟨"info", .default⟩

def isDefault (c : Config) : Bool :=
  c.level == default.level && Setting.all.all fun
    | .seconds _ get _ => get c.pipeline == get default.pipeline
    | .millis _ get _ => get c.pipeline == get default.pipeline

open Toml

/-! ## Values of settings -/

/-- A number of seconds may be given as a whole number. -/
def seconds? : Value → Option Float
  | .float x => some x
  | .integer n => some (Decimal.mk (n < 0) n.natAbs 0).toFloat
  | _ => none

def millis? : Value → Option Nat
  | .integer n => if 0 ≤ n then some n.toNat else none
  | _ => none

def applySetting (s : PipelineSettings Float) (setting : Setting Float) (value : Value) :
    Option (PipelineSettings Float) :=
  match setting with
  | .seconds _ _ set => (seconds? value).map (set · s)
  | .millis _ _ set => (millis? value).map (set · s)

/-! ## Tables of settings -/

/-- Settings by name, or in their order without names. -/
inductive Entries where
  | named (table : Table)
  | listed (values : List Value)

/-- A date has none of the names, so it leaves all settings as they are. -/
def Entries.ofValue? : Value → Option Entries
  | .table _ entries => some (.named entries)
  | .tables entries => some (.listed (entries.reverse.map (.table .header ·)))
  | .array values => some (.listed values)
  | .moment => some (.named [])
  | _ => none

/-- The value of each name that has one. -/
def Entries.assigned {α : Type} (name : α → String) (all : List α) : Entries → List (α × Value)
  | named table => all.filterMap fun a => (table.lookup (name a)).map (a, ·)
  | listed values => all.zip values

def entries? (key : String) (root : Table) : Option Entries :=
  match root.lookup key with
  | none => some (.named [])
  | some value => Entries.ofValue? value

def ofTable? (root : Table) : Option Config := do
  let logging ← entries? "logging" root
  let pipeline ← entries? "pipeline" root
  let level ← (logging.assigned id ["level"]).foldlM (fun _ (_, value) =>
    match value with
    | .text s => some s
    | _ => none) default.level
  let settings ← (pipeline.assigned Setting.name Setting.all).foldlM
    (fun s (setting, value) => applySetting s setting value) default.pipeline
  return ⟨level, settings⟩

/-- Text that is no configuration at all is told from settings that are refused. -/
def ofText (text : String) : Except ServiceError Config :=
  match Document.parse? text >>= ofTable? with
  | none => .error (.configParse "not a table of settings")
  | some config =>
    match config.pipeline.fault? with
    | some fault => .error (.config fault.message)
    | none => .ok config

theorem isValid_of_ofText {text : String} {config : Config} (h : ofText text = .ok config) :
    config.pipeline.IsValid := by
  simp only [ofText] at h
  split at h
  · cases h
  · split at h
    · cases h
    · next hf =>
      cases h
      exact hf

end Config

end MediaPipeline
