import ProcessThreadPool.Lib.Json
import ProcessThreadPool.Metrics.Registry

/-!
# The export of the metrics

`metrics_export_json` writes the counters, the statistics of the latency trackers and the use
of resources as one JSON object. It puts the names between quotation marks as they are stored,
without escapes.
-/

namespace ProcessThreadPool

namespace Metrics

open Decimal Json WordOrder

/-- `resource_usage_t`, without the time. -/
structure ResourceUsage where
  currentRss : UInt64
  maxResidentSetSize : UInt64
  virtualMemorySize : UInt64
  userCpuTime : UInt64
  systemCpuTime : UInt64
  pageFaults : UInt64
  voluntaryContextSwitches : UInt64
  involuntaryContextSwitches : UInt64
  deriving DecidableEq, Repr

/-- `"%s": %lu` behind an indentation. -/
def exportMember (indent : String) (name : List UInt8) (value : UInt64) : List UInt8 :=
  ascii indent ++ (quoted name ++ (ascii ": " ++ decimal value.toNat))

/-- One line for each member, with a comma behind all but the last one. -/
def exportMembers (indent : String) : List (List UInt8 × UInt64) → List UInt8
  | [] => []
  | (name, value) :: rest =>
      exportMember indent name value ++
        ((if rest.isEmpty then [] else ascii ",") ++ (ascii "\n" ++ exportMembers indent rest))

/-- The loop over the counters. -/
def counterMembers (counters : List (Entry UInt64)) : List (List UInt8 × UInt64) :=
  counters.map fun e => (e.name.bytes, e.metric)

/-- What is exported of a latency tracker. -/
def statsMembers (stats : LatencyStats) : List (List UInt8 × UInt64) :=
  [(ascii "count", stats.count), (ascii "total_time", stats.totalTime),
    (ascii "min_time", stats.minTime), (ascii "max_time", stats.maxTime),
    (ascii "avg_time", stats.avgTime)]

/-- What is exported of the use of resources. -/
def usageMembers (usage : ResourceUsage) : List (List UInt8 × UInt64) :=
  [(ascii "current_rss", usage.currentRss), (ascii "max_rss", usage.maxResidentSetSize),
    (ascii "virtual_memory", usage.virtualMemorySize),
    (ascii "user_cpu_time", usage.userCpuTime), (ascii "system_cpu_time", usage.systemCpuTime),
    (ascii "page_faults", usage.pageFaults),
    (ascii "voluntary_context_switches", usage.voluntaryContextSwitches),
    (ascii "involuntary_context_switches", usage.involuntaryContextSwitches)]

/-- The beginning of a member that is an object. -/
def exportOpened (indent : String) (name : List UInt8) : List UInt8 :=
  ascii indent ++ (quoted name ++ ascii ": \x7b\n")

/-- The loop over the latency trackers. -/
def exportLatencies : List (Entry LatencyTracker) → Option (List UInt8)
  | [] => some []
  | e :: es =>
      (metricsLatencyGet e.metric).bind fun stats =>
        (exportLatencies es).map fun rest =>
          [exportOpened "    " e.name.bytes, exportMembers "      " (statsMembers stats),
            ascii "    \x7d", if es.isEmpty then [] else ascii ",", ascii "\n", rest].flatten

/-- `metrics_export_json`. `start` is the `start_time` of the registry. -/
def metricsExportJson (r : Registry) (start now : UInt64) (usage : ResourceUsage) :
    Option (List UInt8) :=
  if r.initialized = false then some []
  else
    (exportLatencies r.latencies).map fun latencies =>
      [ascii "\x7b\n",
        exportMember "  " (ascii "timestamp") now, ascii ",\n",
        exportMember "  " (ascii "uptime_ns") (now - start), ascii ",\n",
        exportOpened "  " (ascii "counters"),
        exportMembers "    " (counterMembers r.counters), ascii "  \x7d,\n",
        exportOpened "  " (ascii "latencies"), latencies, ascii "  \x7d,\n",
        exportOpened "  " (ascii "resource_usage"),
        exportMembers "    " (usageMembers usage), ascii "  \x7d\n",
        ascii "\x7d\n"].flatten

/-! ## What the text is to denote -/

/-- The statistics that `metrics_latency_get` computes. -/
def LatencyTracker.stats (tracker : LatencyTracker) : LatencyStats where
  count := tracker.count
  totalTime := tracker.totalTime
  minTime := if tracker.minTime = uint64Max then 0 else tracker.minTime
  maxTime := tracker.maxTime
  avgTime := if tracker.count = 0 then 0 else tracker.totalTime / tracker.count

/-- A number. -/
def number (value : UInt64) : Value := .num (decimal value.toNat)

/-- An object with numbers for its members. -/
def numbers (members : List (List UInt8 × UInt64)) : List (List UInt8 × Value) :=
  members.map fun m => (m.1, number m.2)

/-- The trackers by their names. -/
def latencyValues (latencies : List (Entry LatencyTracker)) : List (List UInt8 × Value) :=
  latencies.map fun e => (e.name.bytes, .obj (numbers (statsMembers e.metric.stats)))

/-- The value that the text is to denote. -/
def document (r : Registry) (start now : UInt64) (usage : ResourceUsage) : Value :=
  .obj [(ascii "timestamp", number now), (ascii "uptime_ns", number (now - start)),
    (ascii "counters", .obj (numbers (counterMembers r.counters))),
    (ascii "latencies", .obj (latencyValues r.latencies)),
    (ascii "resource_usage", .obj (numbers (usageMembers usage)))]

/-- No name needs escapes. -/
structure PlainNames (r : Registry) : Prop where
  counters : ∀ e ∈ r.counters, Plain e.name.bytes
  latencies : ∀ e ∈ r.latencies, Plain e.name.bytes

section

variable {indent : String} {name rest : List UInt8} {us : List Token}

theorem metricsLatencyGet_stats (tracker : LatencyTracker) :
    metricsLatencyGet tracker = some tracker.stats := by
  by_cases hcount : tracker.count = 0
  · have hnot : ¬ 0 < tracker.count := by
      rw [hcount]
      exact UInt64.lt_irrefl 0
    simp only [metricsLatencyGet, LatencyTracker.stats, if_neg hnot, if_pos hcount,
      Option.map_some]
  · have hpos : 0 < tracker.count := UInt64.pos_iff_ne_zero.mpr hcount
    simp only [metricsLatencyGet, LatencyTracker.stats, if_pos hpos, if_neg hcount, divide,
      Option.map_some]

theorem lexFrom_exportMember_iff (hindent : punctuation (ascii indent) = some [])
    {value : UInt64} {b : UInt8} (hb : isNumberByte b = false) :
    lexFrom .between (exportMember indent name value ++ b :: rest) =
        some (.string name :: .colon :: .number (decimal value.toNat) :: us) ↔
      Plain name ∧ lexFrom .between (b :: rest) = some us := by
  have hcolon : punctuation (ascii ": ") = some [.colon] := by decide
  rw [exportMember, List.append_assoc, List.append_assoc, List.append_assoc]
  refine (lexFrom_punctuation_iff hindent).trans (lexFrom_quoted_iff.trans (and_congr_right' ?_))
  exact (lexFrom_punctuation_iff hcolon).trans (lexFrom_decimal_iff hb _)

theorem lexFrom_exportOpened_iff (hindent : punctuation (ascii indent) = some []) :
    lexFrom .between (exportOpened indent name ++ rest) =
        some (.string name :: .colon :: .openBrace :: us) ↔
      Plain name ∧ lexFrom .between rest = some us := by
  have hopen : punctuation (ascii ": \x7b\n") = some [.colon, .openBrace] := by decide
  rw [exportOpened, List.append_assoc, List.append_assoc]
  refine (lexFrom_punctuation_iff hindent).trans (lexFrom_quoted_iff.trans (and_congr_right' ?_))
  exact lexFrom_punctuation_iff hopen

theorem lexFrom_exportMembers_iff (hindent : punctuation (ascii indent) = some [])
    (members : List (List UInt8 × UInt64)) :
    lexFrom .between (exportMembers indent members ++ rest) =
        some (memberTokens (numbers members) ++ us) ↔
      (∀ m ∈ members, Plain m.1) ∧ lexFrom .between rest = some us := by
  have hcomma : punctuation (ascii ",\n") = some [.comma] := by decide
  have hline : punctuation (ascii "\n") = some [] := by decide
  induction members with
  | nil => simp [exportMembers, numbers, memberTokens]
  | cons m members ih =>
      obtain ⟨name, value⟩ := m
      rw [exportMembers, List.forall_mem_cons, and_assoc, List.append_assoc, List.append_assoc,
        List.append_assoc]
      cases members with
      | nil =>
          refine (lexFrom_exportMember_iff hindent (b := 10) rfl).trans (and_congr_right' ?_)
          exact (lexFrom_punctuation_iff hline).trans ih
      | cons m' members =>
          refine (lexFrom_exportMember_iff hindent (b := 44) rfl).trans (and_congr_right' ?_)
          exact (lexFrom_punctuation_iff hcomma).trans ih

/-- The name `a": 1, "b` is read as two members. -/
example : lexFrom .between (exportMembers "" [([97, 34, 58, 32, 49, 44, 32, 34, 98], 2)]) =
    some (memberTokens (numbers [([97], 1), ([98], 2)])) := by decide

theorem plain_statsMembers (stats : LatencyStats) : ∀ m ∈ statsMembers stats, Plain m.1 := by
  simp only [statsMembers, List.forall_mem_cons, List.not_mem_nil, false_imp_iff, implies_true]
  decide

theorem plain_usageMembers (usage : ResourceUsage) : ∀ m ∈ usageMembers usage, Plain m.1 := by
  simp only [usageMembers, List.forall_mem_cons, List.not_mem_nil, false_imp_iff, implies_true]
  decide

theorem exportLatencies_spec (latencies : List (Entry LatencyTracker)) :
    ∃ text, exportLatencies latencies = some text ∧ ∀ rest us,
      lexFrom .between (text ++ rest) = some (memberTokens (latencyValues latencies) ++ us) ↔
        (∀ e ∈ latencies, Plain e.name.bytes) ∧ lexFrom .between rest = some us := by
  have hclose : punctuation (ascii "    \x7d") = some [.closeBrace] := by decide
  have hcomma : punctuation (ascii ",") = some [.comma] := by decide
  have hline : punctuation (ascii "\n") = some [] := by decide
  induction latencies with
  | nil => exact ⟨[], rfl, fun rest us => by simp [latencyValues, memberTokens]⟩
  | cons e es ih =>
      obtain ⟨text, htext, hlex⟩ := ih
      refine ⟨_, by rw [exportLatencies, metricsLatencyGet_stats, htext]; rfl, fun rest us => ?_⟩
      have htokens : memberTokens (latencyValues (e :: es)) ++ us =
          .string e.name.bytes :: .colon :: .openBrace ::
            (memberTokens (numbers (statsMembers e.metric.stats)) ++ (.closeBrace ::
              ((if es.isEmpty then [] else [.comma]) ++
                (memberTokens (latencyValues es) ++ us)))) := by
        cases es with
        | _ => simp [latencyValues, memberTokens, Value.tokens]
      rw [htokens, List.forall_mem_cons, and_assoc]
      simp only [List.flatten_cons, List.flatten_nil, List.append_nil, List.append_assoc]
      refine (lexFrom_exportOpened_iff (by decide)).trans (and_congr_right' ?_)
      refine (lexFrom_exportMembers_iff (by decide) _).trans
        ((and_iff_right (plain_statsMembers _)).trans ?_)
      refine (lexFrom_punctuation_iff hclose).trans ?_
      cases es with
      | nil => exact (lexFrom_punctuation_iff hline).trans (hlex rest us)
      | cons e' es =>
          refine (lexFrom_punctuation_iff hcomma).trans ?_
          exact (lexFrom_punctuation_iff hline).trans (hlex rest us)

/-- The text of an initialized registry. -/
theorem export_denotes_of_initialized {r : Registry} (hinit : r.initialized = true)
    (start now : UInt64) (usage : ResourceUsage) :
    ∃ text, metricsExportJson r start now usage = some text ∧
      (Denotes text (document r start now usage) ↔ PlainNames r) := by
  have hopen : punctuation (ascii "\x7b\n") = some [.openBrace] := by decide
  have hcomma : punctuation (ascii ",\n") = some [.comma] := by decide
  have hnext : punctuation (ascii "  \x7d,\n") = some [.closeBrace, .comma] := by decide
  have hlast : punctuation (ascii "  \x7d\n") = some [.closeBrace] := by decide
  have hclose : punctuation (ascii "\x7d\n") = some [.closeBrace] := by decide
  have htimestamp : Plain (ascii "timestamp") := by decide
  have huptime : Plain (ascii "uptime_ns") := by decide
  have hcounters : Plain (ascii "counters") := by decide
  have hlatencies : Plain (ascii "latencies") := by decide
  have husage : Plain (ascii "resource_usage") := by decide
  obtain ⟨latencies, htext, hlex⟩ := exportLatencies_spec r.latencies
  refine ⟨_, by rw [metricsExportJson, if_neg (by rw [hinit]; decide), htext]; rfl, ?_⟩
  have htokens : (document r start now usage).tokens =
      .openBrace :: .string (ascii "timestamp") :: .colon :: .number (decimal now.toNat) ::
        .comma :: .string (ascii "uptime_ns") :: .colon ::
        .number (decimal (now - start).toNat) :: .comma ::
        .string (ascii "counters") :: .colon :: .openBrace ::
        (memberTokens (numbers (counterMembers r.counters)) ++ (.closeBrace :: .comma ::
          .string (ascii "latencies") :: .colon :: .openBrace ::
          (memberTokens (latencyValues r.latencies) ++ (.closeBrace :: .comma ::
            .string (ascii "resource_usage") :: .colon :: .openBrace ::
            (memberTokens (numbers (usageMembers usage)) ++ [.closeBrace, .closeBrace]))))) := by
    simp [document, number, Value.tokens, memberTokens]
  rw [Denotes, htokens]
  simp only [List.flatten_cons, List.flatten_nil, List.append_nil]
  refine (lexFrom_punctuation_iff hopen).trans ?_
  refine (lexFrom_exportMember_iff (by decide) (b := 44) rfl).trans
    ((and_iff_right htimestamp).trans ?_)
  refine (lexFrom_punctuation_iff hcomma).trans ?_
  refine (lexFrom_exportMember_iff (by decide) (b := 44) rfl).trans
    ((and_iff_right huptime).trans ?_)
  refine (lexFrom_punctuation_iff hcomma).trans ?_
  refine (lexFrom_exportOpened_iff (by decide)).trans ((and_iff_right hcounters).trans ?_)
  have hrest : lexFrom .between (ascii "  \x7d,\n" ++ (exportOpened "  " (ascii "latencies") ++
      (latencies ++ (ascii "  \x7d,\n" ++ (exportOpened "  " (ascii "resource_usage") ++
        (exportMembers "    " (usageMembers usage) ++ (ascii "  \x7d\n" ++ ascii "\x7d\n"))))))) =
      some (.closeBrace :: .comma :: .string (ascii "latencies") :: .colon :: .openBrace ::
        (memberTokens (latencyValues r.latencies) ++ (.closeBrace :: .comma ::
          .string (ascii "resource_usage") :: .colon :: .openBrace ::
          (memberTokens (numbers (usageMembers usage)) ++ [.closeBrace, .closeBrace])))) ↔
      ∀ e ∈ r.latencies, Plain e.name.bytes := by
    refine (lexFrom_punctuation_iff hnext).trans ?_
    refine (lexFrom_exportOpened_iff (by decide)).trans ((and_iff_right hlatencies).trans ?_)
    refine (hlex _ _).trans (and_iff_left ?_)
    refine (lexFrom_punctuation_iff hnext).mpr ?_
    refine (lexFrom_exportOpened_iff (by decide)).mpr ⟨husage, ?_⟩
    refine (lexFrom_exportMembers_iff (by decide) _).mpr ⟨plain_usageMembers usage, ?_⟩
    exact (lexFrom_punctuation_iff hlast).mpr rfl
  refine (lexFrom_exportMembers_iff (by decide) _).trans ((and_congr_right' hrest).trans ?_)
  rw [counterMembers, List.forall_mem_map]
  exact ⟨fun h => ⟨h.1, h.2⟩, fun h => ⟨h.counters, h.latencies⟩⟩

end

end Metrics

end ProcessThreadPool
