import ThingQuery.Log
import ThingQuery.NameMap
import ThingQuery.Proofs.TextObjects

/-!
# Log lines

A log line is the compact text of an object of texts and a line end (`LogEntry.line_eq`), so the line end is the only
character below U+0020 in it.  Where no key of a field is repeated or taken by the event or the severity, the line is
read back into the entry with its fields in the order of their keys (`LogEntry.Keyed.ofText?_line`).  So entries that are
written alike differ at most in the order of their fields (`LogEntry.Keyed.perm_of_line_eq`).
-/

namespace ThingQuery

namespace Severity

theorem word_injective : Function.Injective word := by
  intro s t
  cases s <;> cases t <;> decide

theorem quote_word (severity : Severity) : Json.quote severity.word = "\"" ++ severity.word ++ "\"" := by
  cases severity <;> rfl

end Severity

namespace LogEntry

/-! ### The order of the fields -/

theorem sortedFields_perm (entry : LogEntry) : entry.sortedFields.Perm entry.fields := List.mergeSort_perm _ _

/-- Fields with distinct keys stand in strictly increasing order. -/
theorem pairwise_sortedFields {entry : LogEntry} (hnodup : (entry.fields.map (·.1)).Nodup) :
    entry.sortedFields.Pairwise (·.1 < ·.1) := by
  have htrans : ∀ a b c : String × String, decide (a.1 ≤ b.1) = true → decide (b.1 ≤ c.1) = true →
      decide (a.1 ≤ c.1) = true := by
    intro a b c hab hbc
    exact decide_eq_true (String.le_trans (of_decide_eq_true hab) (of_decide_eq_true hbc))
  have htotal : ∀ a b : String × String, (decide (a.1 ≤ b.1) || decide (b.1 ≤ a.1)) = true := by
    intro a b
    simpa using String.le_total a.1 b.1
  have hle : entry.sortedFields.Pairwise fun a b => a.1 ≤ b.1 :=
    (List.pairwise_mergeSort htrans htotal entry.fields).imp fun h => of_decide_eq_true h
  have hne : entry.sortedFields.Pairwise fun a b => a.1 ≠ b.1 :=
    List.pairwise_map.1 ((entry.sortedFields_perm.map Prod.fst).nodup_iff.2 hnodup)
  refine (hle.and hne).imp fun {a b} h => ?_
  exact lt_of_not_lt_of_ne (String.not_lt.2 h.1) h.2.symm

/-- There is one strictly increasing order of the same fields. -/
theorem eq_of_perm_of_pairwise {fields others : List (String × String)} (hfields : fields.Pairwise (·.1 < ·.1))
    (hothers : others.Pairwise (·.1 < ·.1)) (h : fields.Perm others) : fields = others := by
  refine h.eq_of_pairwise (fun a b _ _ hab hba => ?_) hfields hothers
  exact absurd (String.lt_trans hab hba) (String.lt_irrefl _)

/-- Which order the fields are given in does not matter. -/
theorem sortedFields_eq_of_perm {entry other : LogEntry} (hnodup : (entry.fields.map (·.1)).Nodup)
    (h : other.fields.Perm entry.fields) : other.sortedFields = entry.sortedFields := by
  have hother : (other.fields.map (·.1)).Nodup := (h.map (·.1)).nodup_iff.2 hnodup
  have hperm : other.sortedFields.Perm entry.sortedFields :=
    (other.sortedFields_perm.trans h).trans entry.sortedFields_perm.symm
  exact eq_of_perm_of_pairwise (pairwise_sortedFields hother) (pairwise_sortedFields hnodup) hperm

/-! ### The line as the text of an object -/

/-- The members of the object that is written: the event, the severity and the fields in the order of their keys. -/
def members (entry : LogEntry) : List (String × String) :=
  ("event", entry.event) :: ("severity", entry.severity.word) :: entry.sortedFields

theorem line_eq (entry : LogEntry) : entry.line = Json.textObject entry.members ++ "\n" := by
  -- the fixed parts of the line, cut where the object has its names, colons and quotes
  have hopen : "\x7b\"event\":" = "\x7b" ++ (Json.quote "event" ++ ":") := rfl
  have hseverity : ",\"severity\":\"" = "," ++ (Json.quote "severity" ++ (":" ++ "\"")) := rfl
  have hclose : "\x7d\n" = "\x7d" ++ "\n" := rfl
  unfold line members
  change _ ++ String.join (entry.sortedFields.map fun field => "," ++ Json.quote field.1 ++ ":" ++ Json.quote field.2) ++
    _ = _
  rw [hopen, hseverity, hclose, Json.textObject_cons, List.map_cons, String.join_cons]
  simp only [Json.memberText, Severity.quote_word, String.append_assoc]

/-- The line end is the only character below U+0020 in a line. -/
theorem exists_printable_line (entry : LogEntry) : ∃ text, Json.Printable text ∧ entry.line = text ++ "\n" :=
  ⟨_, Json.printable_textObject _ _, entry.line_eq⟩

/-! ### Reading lines back -/

/-- The keys of the fields are distinct and differ from the names of the event and the severity. -/
structure Keyed (entry : LogEntry) : Prop where
  nodup : (entry.fields.map (·.1)).Nodup
  event : "event" ∉ entry.fields.map (·.1)
  severity : "severity" ∉ entry.fields.map (·.1)

theorem Keyed.nodup_members {entry : LogEntry} (h : entry.Keyed) : (entry.members.map (·.1)).Nodup := by
  have hkeys : (entry.sortedFields.map (·.1)).Perm (entry.fields.map (·.1)) := entry.sortedFields_perm.map _
  have hnames : "event" ≠ "severity" := by decide
  have hevent : "event" ∉ entry.sortedFields.map (·.1) := fun hmem => h.event (hkeys.subset hmem)
  have hseverity : "severity" ∉ entry.sortedFields.map (·.1) := fun hmem => h.severity (hkeys.subset hmem)
  rw [members, List.map_cons, List.map_cons, List.nodup_cons, List.nodup_cons, List.mem_cons, not_or]
  exact ⟨⟨hnames, hevent⟩, hseverity, hkeys.nodup_iff.2 h.nodup⟩

theorem Keyed.ofText?_line {entry : LogEntry} (h : entry.Keyed) :
    Json.ofText? entry.line = some (.object (Json.textMembers entry.members)) := by
  have hblank : ∀ c ∈ "\n".toList, Json.isBlank c = true := by
    change ∀ c ∈ ['\n'], Json.isBlank c = true
    exact List.forall_mem_singleton.2 rfl
  rw [line_eq]
  exact Json.ofText?_textObject h.nodup_members hblank

/-- Entries that are written alike differ at most in the order of their fields. -/
theorem Keyed.perm_of_line_eq {entry other : LogEntry} (hentry : entry.Keyed) (hother : other.Keyed)
    (h : other.line = entry.line) :
    other.severity = entry.severity ∧ other.event = entry.event ∧ other.fields.Perm entry.fields := by
  have hobject : Json.object (Json.textMembers other.members) = .object (Json.textMembers entry.members) :=
    Option.some.inj (by rw [← hother.ofText?_line, ← hentry.ofText?_line, h])
  have hmembers : other.members = entry.members := Json.textMembers_injective (Json.object.inj hobject)
  obtain ⟨hevent, hseverity, hfields⟩ : other.event = entry.event ∧ other.severity.word = entry.severity.word ∧
      other.sortedFields = entry.sortedFields := by
    simpa [members] using hmembers
  have hperm := other.sortedFields_perm.symm
  rw [hfields] at hperm
  exact ⟨Severity.word_injective hseverity, hevent, hperm.trans entry.sortedFields_perm⟩

/-- A log line has one line end, which is its last character.  Where no key is repeated or taken by the event or the
severity, the line is read as an object of the event, the severity and the fields in the order of their keys, with
exactly the given texts; the order in which the fields are given does not matter, and nothing else of an entry can
change without changing its line. -/
theorem count_newline_line_and_read_back (entry : LogEntry) :
    (entry.line.toList.count '\n' = 1 ∧ entry.line.toList.getLast? = some '\n') ∧
    (entry.Keyed →
      (∃ sorted : List (String × String), sorted.Perm entry.fields ∧ sorted.Pairwise (·.1 < ·.1) ∧
        Json.ofText? entry.line = some (.object (("event", .string entry.event) ::
          ("severity", .string entry.severity.word) :: sorted.map fun field => (field.1, .string field.2)))) ∧
      (∀ fields, fields.Perm entry.fields → { entry with fields := fields }.line = entry.line) ∧
      ∀ other : LogEntry, other.Keyed → other.line = entry.line →
        other.severity = entry.severity ∧ other.event = entry.event ∧ other.fields.Perm entry.fields) := by
  obtain ⟨text, hprintable, hline⟩ := entry.exists_printable_line
  have hchars : entry.line.toList = text.toList ++ ['\n'] := by
    rw [hline, String.toList_append]
    rfl
  refine ⟨⟨?_, ?_⟩, fun hkeyed => ⟨?_, fun fields hfields => ?_, fun other hother => hkeyed.perm_of_line_eq hother⟩⟩
  · rw [hchars, List.count_append, List.count_eq_zero.2 hprintable.newline_notMem]
    rfl
  · rw [hchars, List.getLast?_concat]
  · exact ⟨entry.sortedFields, entry.sortedFields_perm, pairwise_sortedFields hkeyed.nodup, hkeyed.ofText?_line⟩
  · have hsorted : sortedFields { entry with fields := fields } = entry.sortedFields :=
      sortedFields_eq_of_perm hkeyed.nodup hfields
    rw [line_eq, line_eq, members, members, hsorted]

/-- An entry whose texts look like the end of the line and a further line. -/
def forgingEntry : LogEntry where
  severity := .warn
  event := "BQL_QUERY_REJECTED"
  fields :=
    [("reason", "no\"\x7d\n\x7b\"event\":\"BQL_BATCH_EXECUTED\",\"severity\":\"INFO"), ("a\\\x00", "\t⟨é⟩")]

theorem count_newline_line_and_read_back_forging :
    forgingEntry.Keyed ∧ forgingEntry.line.toList.count '\n' = 1 ∧ forgingEntry.line.toList.getLast? = some '\n' ∧
      Json.ofText? forgingEntry.line = some (.object
        [("event", .string "BQL_QUERY_REJECTED"), ("severity", .string "WARN"), ("a\\\x00", .string "\t⟨é⟩"),
          ("reason", .string "no\"\x7d\n\x7b\"event\":\"BQL_BATCH_EXECUTED\",\"severity\":\"INFO")]) ∧
      { forgingEntry with fields := forgingEntry.fields.reverse }.line = forgingEntry.line := by
  have hkeyed : forgingEntry.Keyed := ⟨by decide, by decide, by decide⟩
  obtain ⟨⟨hcount, hlast⟩, hread⟩ := count_newline_line_and_read_back forgingEntry
  obtain ⟨⟨sorted, hperm, hsorted, hline⟩, hreorder, _⟩ := hread hkeyed
  have hreverse : sorted = forgingEntry.fields.reverse :=
    eq_of_perm_of_pairwise hsorted (by decide) (hperm.trans (List.reverse_perm _).symm)
  rw [hreverse] at hline
  exact ⟨hkeyed, hcount, hlast, hline, hreorder _ (List.reverse_perm _)⟩

end LogEntry

end ThingQuery
