import BuildMetrics.Json.Basic
import BuildMetrics.Name
import BuildMetrics.Tags
import BuildMetrics.Text.Blank

/-!
# Configuration

What is the same for all jobs: where the proxy is, how metrics are called, and what is measured.
A configuration is put into its normal form before it is used; the normal form has clean metric
names and a host without blanks around it, and only a configuration that holds what its limits
promise has one.
-/

namespace BuildMetrics

/-- Where a proxy listens. -/
structure Endpoint where
  /-- the host -/
  host : String
  /-- the port -/
  port : UInt16
  deriving DecidableEq, Repr

namespace Endpoint

/-- The host is more than blanks. -/
def isConfigured (e : Endpoint) : Bool := !(Text.trim e.host).isEmpty

/-- The endpoint as it is written. -/
def text (e : Endpoint) : String := e.host ++ ":" ++ toString e.port.toNat

end Endpoint

/-- The settings for all jobs. -/
structure Config where
  /-- the host of the proxy; blank if nothing is to be sent -/
  proxyHostname : String
  /-- the port of the proxy -/
  proxyPort : UInt32
  /-- the minutes between two flushes of the host's own sender -/
  flushInterval : UInt64
  /-- the path of the metrics of the host -/
  metricsPrefix : String
  /-- the path of the metrics of jobs -/
  jobMetricsPrefix : String
  /-- who measures; the proxy's host if it is absent or empty -/
  source : Option String
  /-- tests are measured for all jobs -/
  junitForAll : Bool
  /-- coverage is measured for all jobs -/
  jacocoForAll : Bool
  /-- the parameters of all jobs become tags -/
  parametersForAll : Bool
  /-- how many tags a record may have -/
  tagLimits : TagLimits
  deriving DecidableEq, Repr

/-- Why there is no usable configuration. -/
inductive ConfigError where
  /-- the file cannot be read -/
  | unreadable (path reason : String)
  /-- the file does not hold a configuration -/
  | notJson (fault : Json.Fault)
  /-- there is no such port -/
  | invalidPort (port : UInt32)
  /-- there is no time between two flushes -/
  | invalidFlushInterval (minutes : UInt64)
  /-- the tags of parameters could take the place of those that every record has -/
  | invalidTagLimits (limits : TagLimits)
  deriving DecidableEq, Repr

namespace Config

/-- The settings where nothing else is said. -/
def default : Config where
  proxyHostname := ""
  proxyPort := 2878
  flushInterval := 5
  metricsPrefix := "wjp"
  jobMetricsPrefix := "wjp.job"
  source := none
  junitForAll := false
  jacocoForAll := false
  parametersForAll := false
  tagLimits := TagLimits.default

/-- No record has more tags of its own than that: the job, the run and the outcome of a test. -/
def fixedTags : Nat := 3

/-- The greatest count of 64 bits. -/
def greatestCount : Nat := 18446744073709551615

/-- Checks the port, the minutes between flushes and the limits, in this order. The limits have to
leave room for the tags of every record next to a full share of parameters. -/
def validate (c : Config) : Except ConfigError Unit :=
  if 65535 < c.proxyPort then .error (.invalidPort c.proxyPort)
  else if c.flushInterval < 1 then .error (.invalidFlushInterval c.flushInterval)
  else if c.tagLimits.maxTags.toNat <
      min (c.tagLimits.maxParameterTags.toNat + fixedTags) greatestCount then
    .error (.invalidTagLimits c.tagLimits)
  else .ok ()

/-- The configuration with clean metric names and a host without blanks around it. -/
def cleaned (c : Config) : Config :=
  { c with
    metricsPrefix := Name.dotted c.metricsPrefix
    jobMetricsPrefix := Name.dotted c.jobMetricsPrefix
    proxyHostname := Text.trim c.proxyHostname }

/-- The normal form of a configuration, if it is valid. -/
def normalized (c : Config) : Except ConfigError Config := do
  c.validate
  return c.cleaned

/-- There is a proxy to send to. -/
def isConfigured (c : Config) : Bool := !(Text.trim c.proxyHostname).isEmpty

/-- Where the proxy listens, if there is one and its port is a port. -/
def endpoint? (c : Config) : Option Endpoint :=
  if c.isConfigured && c.proxyPort ≤ 65535 then
    some ⟨Text.trim c.proxyHostname, UInt16.ofNat c.proxyPort.toNat⟩
  else none

/-- The source of every record. -/
def sourceName (c : Config) : String :=
  match c.source with
  | some source => if source.isEmpty then c.proxyHostname else source
  | none => c.proxyHostname

end Config

/-- What a job asks for itself. -/
structure JobProperty where
  /-- its tests are measured -/
  enableJunit : Bool
  /-- its coverage is measured -/
  enableJacoco : Bool
  /-- its parameters become tags -/
  enableParameters : Bool
  /-- the names of these parameters, one a line; all of them if there is none -/
  jobParameters : String
  deriving DecidableEq, Repr

namespace JobProperty

/-- A job that asks for nothing. -/
def default : JobProperty := ⟨false, false, false, ""⟩

/-- The names of the parameters that are asked for. Blank lines do not count. -/
def selectedParameters (p : JobProperty) : List String :=
  ((Text.lines p.jobParameters).map Text.trim).filter fun name => !name.isEmpty

end JobProperty

end BuildMetrics
