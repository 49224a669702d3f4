import Stencil.Delimiters
import Stencil.Diagnostic
import Stencil.Path
import Stencil.Style
/-!
# Render options

The options of a template and the changes that a patch asks for. A patch never fails: a value that
is not acceptable is reported, and the option keeps its value.
-/
namespace Stencil

inductive NameToken where
  /-- The whole fingerprint. -/
  | tid
  /-- The abbreviated fingerprint. -/
  | atid
  /-- Milliseconds since the Unix epoch. -/
  | time
  | filename
  | type
  | ext
deriving Repr, DecidableEq, Inhabited

namespace NameToken

def name : NameToken → String
  | .tid => "tid"
  | .atid => "atid"
  | .time => "time"
  | .filename => "filename"
  | .type => "type"
  | .ext => "ext"

def all : List NameToken := [.tid, .atid, .time, .filename, .type, .ext]

def ofName? (name : String) : Option NameToken := all.find? fun t => t.name == name

end NameToken

/-- The options of a template. Times to live are in milliseconds, and zero disables a tier. -/
structure Options where
  delimiters : Delimiters := .standard
  reporting : Nat := 2
  style : Style := .compressed
  haltOnError : Bool := true
  fullTtl : Nat := 0
  partialTtl : Nat := 30000
  output : Bool := false
  outputFormat : List NameToken := [.atid, .type, .filename, .ext]
  outputExt : String := "html"
  outputDir : Path := ['.']
  /-- The next render starts from source whatever the tiers say. -/
  forceFull : Bool := false
  /-- What a nested render names is code and no file. -/
  code : Bool := false
  name : Option String := none
  absolutePaths : Bool := false
  autoRepair : Bool := true
deriving Repr, DecidableEq, Inhabited

/-- Changes to options; what is not set stays. -/
structure Patch where
  delimiterStart : Option Text := none
  delimiterStop : Option Text := none
  reporting : Option Nat := none
  style : Option Style := none
  haltOnError : Option Bool := none
  fullTtl : Option Nat := none
  partialTtl : Option Nat := none
  output : Option Bool := none
  outputFormat : Option (List NameToken) := none
  outputExt : Option String := none
  outputDir : Option Path := none
  forceFull : Option Bool := none
  code : Option Bool := none
  name : Option String := none
  absolutePaths : Option Bool := none
  autoRepair : Option Bool := none
deriving Repr, DecidableEq, Inhabited

namespace Options

def maxReporting : Nat := 3

/-- Times to live above this many milliseconds draw a notice. -/
def longTtl : Nat := 600000

/-- Take over a reporting level. It holds for the rest of the patch too. -/
def applyReporting (o : Options) (log : Collector) : Option Nat → Options × Collector
  | none => (o, log)
  | some level =>
    if level ≤ maxReporting then ({ o with reporting := level }, { log with reporting := level })
    else
      (o, log.warn Diagnostic.invalidOption
        ("Ignoring reporting level " ++ toString level ++ "; expected 0 to 3"))

def quotedPair (d : Delimiters) : String :=
  "'" ++ String.ofList d.start ++ "' and '" ++ String.ofList d.stop ++ "'"

/-- Warnings about a valid pair of delimiters. -/
def reviewDelimiters (d : Delimiters) (log : Collector) : Collector :=
  let log :=
    if d.isShort then
      log.warn Diagnostic.shortDelimiter
        ("Delimiters " ++ quotedPair d ++ " are short and may match ordinary text")
    else log
  match d.riskyPart? with
  | some part =>
    log.warn Diagnostic.riskyDelimiter
      ("Delimiter '" ++ String.ofList part ++ "' may collide with fragment code")
  | none => log

/-- Take over delimiters. A pair with one of them unset is completed by the current one. Tells whether
the delimiters changed. -/
def applyDelimiters (o : Options) (log : Collector) (start stop : Option Text) :
    Options × Collector × Bool :=
  if start.isNone && stop.isNone then (o, log, false)
  else
    let pair : Delimiters := ⟨start.getD o.delimiters.start, stop.getD o.delimiters.stop⟩
    if !pair.isValid then
      (o, log.warn Diagnostic.invalidOption
        ("Ignoring delimiters " ++ quotedPair pair ++ "; they must be non-empty and different"),
        false)
    -- setting them to what they are asks for no new render
    else if pair = o.delimiters then (o, log, false)
    else ({ o with delimiters := pair }, reviewDelimiters pair log, true)

def reviewTtl (key : String) (ttl : Nat) (log : Collector) : Collector :=
  if longTtl < ttl then
    log.notify Diagnostic.longTtl
      (key ++ " of " ++ toString ttl ++ "ms is long; cached output may go stale")
  else log

/-- Take over the time to live of the static tier, which never goes down. -/
def applyFullTtl (o : Options) (log : Collector) : Option Nat → Options × Collector
  | none => (o, log)
  | some ttl =>
    if ttl < o.fullTtl then
      (o, log.warn Diagnostic.shorterTtl
        ("Ignoring full_cache_ttl " ++ toString ttl ++ "; it cannot go below the current " ++
          toString o.fullTtl))
    else ({ o with fullTtl := ttl }, reviewTtl "full_cache_ttl" ttl log)

def applyPartialTtl (o : Options) (log : Collector) : Option Nat → Options × Collector
  | none => (o, log)
  | some ttl => ({ o with partialTtl := ttl }, reviewTtl "partial_cache_ttl" ttl log)

/-- Take over the options of which every value is acceptable. -/
def applyPlain (o : Options) (p : Patch) : Options :=
  { o with
    style := p.style.getD o.style
    haltOnError := p.haltOnError.getD o.haltOnError
    output := p.output.getD o.output
    outputFormat := p.outputFormat.getD o.outputFormat
    outputExt := p.outputExt.getD o.outputExt
    outputDir := p.outputDir.getD o.outputDir
    forceFull := p.forceFull.getD o.forceFull
    code := p.code.getD o.code
    name := p.name <|> o.name
    absolutePaths := p.absolutePaths.getD o.absolutePaths
    autoRepair := p.autoRepair.getD o.autoRepair }

/-- Apply a patch: the new options, the diagnostics added to the log, and whether the delimiters
changed. -/
def apply (o : Options) (p : Patch) (log : Collector) : Options × Collector × Bool :=
  let (o, log) := o.applyReporting log p.reporting
  let (o, log, changed) := o.applyDelimiters log p.delimiterStart p.delimiterStop
  let (o, log) := o.applyFullTtl log p.fullTtl
  let (o, log) := o.applyPartialTtl log p.partialTtl
  (o.applyPlain p, log, changed)

end Options

end Stencil
