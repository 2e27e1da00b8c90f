import BuildMetrics.Config.Basic
import BuildMetrics.Record.Codec
import BuildMetrics.Text.Utf8

/-!
# Configurations in JSON

A configuration file holds one JSON object. What it does not say has its usual value.
-/

namespace BuildMetrics

open Json Json.Codec

/-- An endpoint is a record. -/
def Endpoint.codec : Codec Endpoint :=
  record (.cons (required "host" string) <| .cons (required "port" uint16) .nil)
    (fun e => (e.host, e.port, ())) (fun (host, port, ()) => ⟨host, port⟩)

namespace Config

/-- A configuration is a record. -/
def codec : Codec Config :=
  record
    (.cons (defaulted "proxy_hostname" string default.proxyHostname) <|
      .cons (defaulted "proxy_port" uint32 default.proxyPort) <|
      .cons (defaulted "flush_interval" uint64 default.flushInterval) <|
      .cons (defaulted "metrics_prefix" string default.metricsPrefix) <|
      .cons (defaulted "job_metrics_prefix" string default.jobMetricsPrefix) <|
      .cons (defaulted "source" string.option default.source) <|
      .cons (defaulted "enable_junit_for_all_jobs" bool default.junitForAll) <|
      .cons (defaulted "enable_jacoco_for_all_jobs" bool default.jacocoForAll) <|
      .cons (defaulted "enable_parameters_for_all_jobs" bool default.parametersForAll) <|
      .cons (defaulted "tag_limits" TagLimits.codec default.tagLimits) .nil)
    (fun c =>
      (c.proxyHostname, c.proxyPort, c.flushInterval, c.metricsPrefix, c.jobMetricsPrefix,
        c.source, c.junitForAll, c.jacocoForAll, c.parametersForAll, c.tagLimits, ()))
    (fun (proxyHostname, proxyPort, flushInterval, metricsPrefix, jobMetricsPrefix, source,
        junitForAll, jacocoForAll, parametersForAll, tagLimits, ()) =>
      ⟨proxyHostname, proxyPort, flushInterval, metricsPrefix, jobMetricsPrefix, source,
        junitForAll, jacocoForAll, parametersForAll, tagLimits⟩)

/-- The configuration that a text holds, as it stands there. -/
def ofText (text : String) : Except ConfigError Config :=
  (codec.decode text).mapError .notJson

/-- The normal form of the configuration in a file. The content of the file is given as its bytes
or as the reason why it cannot be read. -/
def load (path : String) (content : Except String (List UInt8)) : Except ConfigError Config := do
  match content with
  | .error reason => throw (.unreadable path reason)
  | .ok bytes =>
    match Text.decodeUtf8? bytes with
    | none => throw (.unreadable path "the file is not UTF-8")
    | some text => (← ofText text).normalized

end Config

/-- A property is a record; what it does not say is not asked for. -/
def JobProperty.codec : Codec JobProperty :=
  record
    (.cons (defaulted "enable_junit" bool false) <|
      .cons (defaulted "enable_jacoco" bool false) <|
      .cons (defaulted "enable_parameters" bool false) <|
      .cons (defaulted "job_parameters" string "") .nil)
    (fun p => (p.enableJunit, p.enableJacoco, p.enableParameters, p.jobParameters, ()))
    (fun (junit, jacoco, parameters, names, ()) => ⟨junit, jacoco, parameters, names⟩)

/-- The wording of a fault. -/
def Json.Fault.message : Fault → String
  | syntaxError => "the text is not JSON"
  | shapeError => "the value has another type"

/-- The wording of an error. -/
def ConfigError.message : ConfigError → String
  | unreadable path reason => s!"cannot read config file {path}: {reason}"
  | notJson fault => s!"invalid config JSON: {fault.message}"
  | invalidPort port => s!"proxy port must be between 0 and 65535, got {port}"
  | invalidFlushInterval minutes =>
    s!"flush interval must be at least 1 minute, got {minutes}"
  | invalidTagLimits limits =>
    s!"tag limits leave no room for fixed tags: max_tags {limits.maxTags} must be at least " ++
      s!"max_parameter_tags {limits.maxParameterTags} + {Config.fixedTags}"

end BuildMetrics
