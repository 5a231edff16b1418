import Mathlib.Data.List.Nodup
import TripleQuery.Codec.Config
import TripleQuery.Codec.Data
import TripleQuery.Proofs.Binding.Merge
import TripleQuery.Proofs.Json.Reordering

/-!
# Written data are read back

Every value of the data model and of the configuration that is written as JSON is read back as the
same value, in whatever order the members of its objects arrive (`written_data_read_back`). Two
places need an argument of their own. A term whose content comes before its kind is read only if the
content can be read whole, which what a term writes always can (`Term.isReadable_content`). And the
entries of a binding arrive in any order, but with a variable each, so inserting them gives the one
binding that has them (`Binding.ofPairs_of_perm`).

A configuration is also read back when settings are missing: just these have their standard values
(`Config.reads_without`).
-/

namespace TripleQuery

open Json (Reordered MembersReordered)

/-! ## Readers and writers -/

/-- Reading takes back what writing produces, with the members of its objects in any order. -/
def Lossless {α : Type} (write : α → Json) (read : Json → Option α) : Prop :=
  ∀ (a : α) (j : Json), (write a).Reordered j → read j = some a

theorem lossless_text : Lossless Json.string Json.asString? := by
  rintro s _ rfl
  rfl

theorem lossless_name : Lossless Json.string Json.asName? := by
  rintro s _ rfl
  rfl

theorem lossless_bool : Lossless Json.bool Json.asBool? := by
  rintro b _ rfl
  rfl

section

variable {α : Type} {write : α → Json} {read : Json → Option α}
variable {members others : List (String × Json)}

theorem Lossless.required (h : Lossless write read) (hr : MembersReordered members others)
    (hnodup : (members.map (·.1)).Nodup) (name : String) (a : α)
    (hmem : (name, write a) ∈ members) :
    ∃ v, Json.required name others = some v ∧ read v = some a := by
  obtain ⟨v, hv, hav⟩ := hr.required hnodup hmem
  exact ⟨v, hv, h a v hav⟩

theorem Lossless.optional (h : Lossless write read) (hr : MembersReordered members others)
    (hnodup : (members.map (·.1)).Nodup) (name : String) (a : α)
    (hmem : (name, write a) ∈ members) :
    ∃ v, Json.optional name others = some (some v) ∧ read v = some a := by
  obtain ⟨v, hv, hav⟩ := hr.optional hnodup hmem
  exact ⟨v, hv, h a v hav⟩

/-- Where null cannot be read, a value that is read does not count as missing. -/
theorem optionOf?_of_read {a : α} {v : Json} (hnull : read .null = none) (hv : read v = some a) :
    Json.optionOf? read (some v) = some (some a) := by
  cases v with
  | null =>
    rw [hnull] at hv
    cases hv
  | _ => exact congrArg (Option.map some) hv

end

/-! ## Literals and terms -/

/-- The members that a literal is written with. -/
def Literal.members (l : Literal) : List (String × Json) :=
  [("lexical", .string l.lexical), ("datatype", .string l.datatype)] ++
    match l.language with
    | some tag => [("language", .string tag)]
    | none => []

theorem Literal.nodup_members (l : Literal) : (l.members.map (·.1)).Nodup := by
  unfold members
  cases l.language <;> simp

theorem Literal.language_reordered {l : Literal} {others : List (String × Json)}
    (hr : MembersReordered l.members others) :
    ∃ v, Json.optional "language" others = some v ∧
      Json.optionOf? Json.asString? v = some l.language := by
  have hnodup := l.nodup_members
  unfold members at hr hnodup
  cases hl : l.language with
  | none =>
    rw [hl] at hr
    exact ⟨none, hr.optional_eq_none (by simp), rfl⟩
  | some tag =>
    rw [hl] at hr hnodup
    obtain ⟨v, hv, hread⟩ := lossless_text.optional hr hnodup "language" tag (by simp)
    exact ⟨some v, hv, optionOf?_of_read rfl hread⟩

theorem Literal.lossless : Lossless Literal.toJson Literal.ofJson? := by
  rintro l _ ⟨others, rfl, hr⟩
  have hr : MembersReordered l.members others := hr
  obtain ⟨v, hv, hlexical⟩ :=
    lossless_text.required hr l.nodup_members "lexical" l.lexical (by simp [members])
  obtain ⟨w, hw, hdatatype⟩ :=
    lossless_text.required hr l.nodup_members "datatype" l.datatype (by simp [members])
  obtain ⟨x, hx, hlanguage⟩ := Literal.language_reordered hr
  simp [Literal.ofJson?, Json.asObject?, hv, hlexical, hw, hdatatype, hx, hlanguage]

/-- The kind that a term is written with. -/
def Term.kind : Term → String
  | .blank _ => "blank_node"
  | .iri _ => "iri"
  | .literal _ => "literal"

/-- The content that a term is written with. -/
def Term.content : Term → Json
  | .blank label => .string label
  | .iri text => .string text
  | .literal l => l.toJson

theorem Term.toJson_eq (t : Term) :
    t.toJson = .object [("type", .string t.kind), ("value", t.content)] := by
  cases t <;> rfl

/-- Each kind of term reads its own content. -/
theorem Term.ofContent?_of_reordered {t : Term} {v : Json} (h : t.content.Reordered v) :
    Term.ofContent? t.kind v = some t := by
  cases t with
  | blank label =>
    cases h
    rfl
  | iri text =>
    cases h
    rfl
  | literal l =>
    have hl : Literal.ofJson? v = some l := Literal.lossless l v h
    simp [ofContent?, kind, hl]

/-- What a term writes can be read whole, so it may stand before the kind. -/
theorem Term.isReadable_content (t : Term) : t.content.isReadable = true := by
  cases t with
  | blank label => rfl
  | iri text => rfl
  | literal l =>
    obtain ⟨lexical, datatype, language⟩ := l
    cases language <;> rfl

theorem Term.lossless : Lossless Term.toJson Term.ofJson? := by
  intro t j h
  rw [Term.toJson_eq] at h
  obtain ⟨others, rfl, hr⟩ := h
  have hnodup : ["type", "value"].Nodup := by decide
  obtain ⟨w, hw, hkind⟩ := lossless_name.required hr hnodup "type" t.kind (by simp)
  obtain ⟨v, hv, hcontent⟩ := hr.required hnodup (List.mem_cons_of_mem _ List.mem_cons_self)
  have hreadable : v.isReadable = true := by
    rw [hcontent.isReadable_eq, Term.isReadable_content]
  have hterm : ofContent? t.kind v = some t := ofContent?_of_reordered hcontent
  simp [Term.ofJson?, Json.asObject?, hw, hkind, hv, hreadable, hterm]

/-! ## Variables and bindings -/

theorem Variable.lossless : Lossless Variable.toJson Variable.ofJson? := by
  rintro v _ rfl
  rfl

theorem pairsOfMembers?_cons {name : String} {v : Json} {rest : List (String × Json)}
    {pairs : List (Variable × Term)} :
    pairsOfMembers? ((name, v) :: rest) = some pairs ↔
      ∃ t ps, Term.ofJson? v = some t ∧ pairsOfMembers? rest = some ps ∧
        (⟨name⟩, t) :: ps = pairs := by
  simp [pairsOfMembers?, Option.bind_eq_some_iff]

/-- Members in another order are pairs in another order. -/
theorem pairsOfMembers?_of_perm {members others : List (String × Json)}
    {pairs : List (Variable × Term)} (h : members.Perm others)
    (hpairs : pairsOfMembers? members = some pairs) :
    ∃ ps, pairsOfMembers? others = some ps ∧ ps.Perm pairs := by
  induction h generalizing pairs with
  | nil => exact ⟨pairs, hpairs, .refl _⟩
  | cons e _ ih =>
    obtain ⟨t, ps, ht, hps, rfl⟩ := pairsOfMembers?_cons.1 hpairs
    obtain ⟨qs, hqs, hperm⟩ := ih hps
    exact ⟨_, pairsOfMembers?_cons.2 ⟨t, qs, ht, hqs, rfl⟩, hperm.cons _⟩
  | swap e f rest =>
    obtain ⟨t, _, ht, htail, rfl⟩ := pairsOfMembers?_cons.1 hpairs
    obtain ⟨u, ps, hu, hps, rfl⟩ := pairsOfMembers?_cons.1 htail
    have hrest : pairsOfMembers? (f :: rest) = some ((⟨f.1⟩, t) :: ps) :=
      pairsOfMembers?_cons.2 ⟨t, ps, ht, hps, rfl⟩
    exact ⟨_, pairsOfMembers?_cons.2 ⟨u, _, hu, hrest, rfl⟩, .swap _ _ _⟩
  | trans _ _ ih ih' =>
    obtain ⟨ps, hps, hperm⟩ := ih hpairs
    obtain ⟨qs, hqs, hperm'⟩ := ih' hps
    exact ⟨qs, hqs, hperm'.trans hperm⟩

namespace Binding

variable {pairs others : List (Variable × Term)}

theorem insert_insert_comm {v w : Variable} (h : v ≠ w) (b : Binding) (t u : Term) :
    (b.insert v t).insert w u = (b.insert w u).insert v t := by
  refine ext_get? fun x => ?_
  simp only [get?_insert]
  by_cases hv : x = v
  · have hw : x ≠ w := fun hw => h (hv.symm.trans hw)
    simp [hv, h]
  · simp [hv]

/-- Pairs with a variable each are one binding in any order. -/
theorem ofPairs_of_perm (h : pairs.Perm others) (hnodup : (pairs.map (·.1)).Nodup) :
    ofPairs pairs = ofPairs others := by
  refine h.foldl_eq' (fun e he f hf b => ?_) empty
  by_cases hvar : e.1 = f.1
  · have hef : e = f := List.inj_on_of_nodup_map hnodup he hf hvar
    rw [hef]
  · exact insert_insert_comm hvar b e.2 f.2

/-- A binding is the one of its own entries. -/
theorem ofPairs_entries (b : Binding) : ofPairs b.entries = b := by
  refine ext_get? fun v => ?_
  have h : (empty.insertAll b.entries).get? v = (find v b.entries).or (empty.get? v) :=
    get?_insertAll b.ordered empty v
  rw [get?_empty, Option.or_none] at h
  exact h

/-- The entries of a binding are read in some order. The induction is on the entries: the member of
the first one may stand anywhere, so it is brought to the front before it is read. -/
theorem reads_entries {entries : List (Variable × Term)} {members : List (String × Json)}
    (h : MembersReordered (entries.map fun (v, t) => (v.name, t.toJson)) members) :
    ∃ pairs, pairsOfMembers? members = some pairs ∧ pairs.Perm entries := by
  induction entries generalizing members with
  | nil =>
    cases h
    exact ⟨[], rfl, .nil⟩
  | cons e rest ih =>
    obtain ⟨w, tail, hperm, hw, hrest⟩ := h
    obtain ⟨ps, hps, hrestPerm⟩ := ih hrest
    have ht : Term.ofJson? w = some e.2 := Term.lossless e.2 w hw
    have hcons : pairsOfMembers? ((e.1.name, w) :: tail) = some (e :: ps) :=
      pairsOfMembers?_cons.2 ⟨e.2, ps, ht, hps, rfl⟩
    obtain ⟨qs, hqs, hqsPerm⟩ := pairsOfMembers?_of_perm hperm.symm hcons
    exact ⟨qs, hqs, hqsPerm.trans (hrestPerm.cons e)⟩

theorem nodup_domain (b : Binding) : (b.entries.map (·.1)).Nodup := by
  refine List.pairwise_map.2 (b.ordered.imp fun {e f} hlt heq => ?_)
  rw [heq] at hlt
  exact String.lt_irrefl _ hlt

theorem lossless : Lossless Binding.toJson Binding.ofJson? := by
  rintro b _ ⟨members, rfl, hr⟩
  obtain ⟨pairs, hpairs, hperm⟩ := reads_entries hr
  have hb : ofPairs pairs = b := by
    rw [← ofPairs_of_perm hperm.symm b.nodup_domain, ofPairs_entries]
  simp [Binding.ofJson?, Json.asObject?, hpairs, hb]

end Binding

/-! ## Patterns and quads -/

theorem TermPattern.lossless : Lossless TermPattern.toJson TermPattern.ofJson? := by
  rintro (t | v) _ ⟨others, rfl, hr⟩
  · obtain ⟨w, rfl, hw⟩ := hr.of_singleton
    simp [TermPattern.ofJson?, Term.lossless t w hw]
  · obtain ⟨w, rfl, hw⟩ := hr.of_singleton
    simp [TermPattern.ofJson?, Variable.lossless v w hw]

theorem TriplePattern.lossless : Lossless TriplePattern.toJson TriplePattern.ofJson? := by
  rintro p _ ⟨others, rfl, hr⟩
  have hnodup : ["subject", "predicate", "object"].Nodup := by decide
  obtain ⟨s, hs, hsubject⟩ :=
    TermPattern.lossless.required hr hnodup "subject" p.subject (by simp)
  obtain ⟨v, hv, hpredicate⟩ :=
    TermPattern.lossless.required hr hnodup "predicate" p.predicate (by simp)
  obtain ⟨o, ho, hobject⟩ := TermPattern.lossless.required hr hnodup "object" p.object (by simp)
  simp [TriplePattern.ofJson?, Json.asObject?, hs, hsubject, hv, hpredicate, ho, hobject]

/-- A graph name is read back, and null as the default graph. -/
theorem graph_lossless :
    Lossless (fun g : Option Term => g.elim .null Term.toJson)
      fun v => Json.optionOf? Term.ofJson? (some v) := by
  rintro (_ | t) v h
  · cases h
    rfl
  · exact optionOf?_of_read rfl (Term.lossless t v h)

theorem Quad.lossless : Lossless Quad.toJson Quad.ofJson? := by
  rintro q _ ⟨others, rfl, hr⟩
  have hnodup : ["subject", "predicate", "object", "graph_name"].Nodup := by decide
  obtain ⟨s, hs, hsubject⟩ := Term.lossless.required hr hnodup "subject" q.subject (by simp)
  obtain ⟨v, hv, hpredicate⟩ := Term.lossless.required hr hnodup "predicate" q.predicate (by simp)
  obtain ⟨o, ho, hobject⟩ := Term.lossless.required hr hnodup "object" q.object (by simp)
  obtain ⟨g, hg, hgraph⟩ := graph_lossless.optional hr hnodup "graph_name" q.graph (by simp)
  simp [Quad.ofJson?, Json.asObject?, hs, hsubject, hv, hpredicate, ho, hobject, hg, hgraph]

/-! ## Configuration -/

theorem LeftJoinStrategy.lossless :
    Lossless LeftJoinStrategy.toJson LeftJoinStrategy.ofJson? := by
  rintro (_ | _) _ h <;> cases h <;> rfl

theorem rowCount_lossless : Lossless (fun n : UInt64 => .integer n.toNat) rowCount? := by
  rintro n _ rfl
  have hrange : 0 ≤ (n.toNat : Int) ∧ (n.toNat : Int) < UInt64.size :=
    ⟨Int.natCast_nonneg _, Int.ofNat_lt.2 n.toNat_lt_size⟩
  unfold rowCount?
  rw [Json.asInteger?, Option.bind_eq_bind, Option.bind_some, if_pos hrange, Int.toNat_natCast]
  exact congrArg some UInt64.ofNat_toNat

/-- The object without the members of some names. -/
def Json.without (names : List String) : Json → Json
  | .object members => .object (members.filter fun e => e.1 ∉ names)
  | j => j

/-- The settings, but with those of some names at their standard values. -/
def Config.reset (c : Config) (names : List String) : Config where
  maxRows := if "max_rows_in_memory" ∈ names then standard.maxRows else c.maxRows
  leftJoin := if "left_join_strategy" ∈ names then standard.leftJoin else c.leftJoin
  filterPlacement :=
    if "filter_placement" ∈ names then standard.filterPlacement else c.filterPlacement
  collectStats := if "collect_stats" ∈ names then standard.collectStats else c.collectStats

section

variable {α : Type} {write : α → Json} {read : Json → Option α}
variable {members others : List (String × Json)} {names : List String}

/-- A setting is read back if its member was kept, and has its standard value if it was dropped. -/
theorem Lossless.setting (h : Lossless write read)
    (hr : MembersReordered (members.filter fun e => e.1 ∉ names) others)
    (hnodup : (members.map (·.1)).Nodup) (name : String) (a standard : α)
    (hmem : (name, write a) ∈ members) :
    ∃ v, Json.optional name others = some v ∧
      settingOf? read standard v = some (if name ∈ names then standard else a) := by
  by_cases hname : name ∈ names
  · have hgone : name ∉ (members.filter fun e => e.1 ∉ names).map (·.1) := by
      simp [hname]
    exact ⟨none, hr.optional_eq_none hgone, by rw [if_pos hname, settingOf?]⟩
  · have hkept : ((members.filter fun e => e.1 ∉ names).map (·.1)).Nodup :=
      hnodup.sublist (List.filter_sublist.map _)
    obtain ⟨v, hv, hread⟩ := h.optional hr hkept name a (by simp [hmem, hname])
    exact ⟨some v, hv, by rw [if_neg hname, settingOf?, hread]⟩

end

theorem Config.reads_without (c : Config) (names : List String) (j : Json)
    (h : (c.toJson.without names).Reordered j) : Config.ofJson? j = some (c.reset names) := by
  obtain ⟨others, rfl, hr⟩ := h
  have hnodup : ["max_rows_in_memory", "left_join_strategy", "filter_placement",
    "collect_stats"].Nodup := by decide
  obtain ⟨m, hm, hmaxRows⟩ := rowCount_lossless.setting hr hnodup "max_rows_in_memory" c.maxRows
    standard.maxRows (by simp)
  obtain ⟨l, hl, hleftJoin⟩ := LeftJoinStrategy.lossless.setting hr hnodup "left_join_strategy"
    c.leftJoin standard.leftJoin (by simp)
  obtain ⟨f, hf, hfilterPlacement⟩ := lossless_bool.setting hr hnodup "filter_placement"
    c.filterPlacement standard.filterPlacement (by simp)
  obtain ⟨s, hs, hcollectStats⟩ := lossless_bool.setting hr hnodup "collect_stats"
    c.collectStats standard.collectStats (by simp)
  simp [Config.ofJson?, Json.asObject?, hm, hmaxRows, hl, hleftJoin, hf, hfilterPlacement, hs,
    hcollectStats, Config.reset]

theorem Config.lossless : Lossless Config.toJson Config.ofJson? := by
  intro c j h
  exact c.reads_without [] j h

/-- **Written data are read back.** Terms, literals, variables, bindings, positions, patterns,
quads, strategies and configurations are read as what was written, with the members of their objects
in any order at any depth. If settings of any names are dropped from a configuration, it is read as
the configuration in which just these have their standard values. -/
theorem written_data_read_back :
    (Lossless Term.toJson Term.ofJson? ∧ Lossless Literal.toJson Literal.ofJson? ∧
      Lossless Variable.toJson Variable.ofJson? ∧ Lossless Binding.toJson Binding.ofJson? ∧
      Lossless TermPattern.toJson TermPattern.ofJson? ∧
      Lossless TriplePattern.toJson TriplePattern.ofJson? ∧ Lossless Quad.toJson Quad.ofJson? ∧
      Lossless LeftJoinStrategy.toJson LeftJoinStrategy.ofJson? ∧
      Lossless Config.toJson Config.ofJson?) ∧
    ∀ (c : Config) (names : List String) (j : Json),
      (c.toJson.without names).Reordered j → Config.ofJson? j = some (c.reset names) :=
  ⟨⟨Term.lossless, Literal.lossless, Variable.lossless, Binding.lossless, TermPattern.lossless,
    TriplePattern.lossless, Quad.lossless, LeftJoinStrategy.lossless, Config.lossless⟩,
    Config.reads_without⟩

namespace Lossless.Instance

/-- A quad with a literal that has both a datatype of its own and a language tag. -/
def tagged : Quad :=
  ⟨.blank "b", .iri "p", .literal ⟨"1", "http://example.org/digit", some "EN"⟩, some (.iri "g")⟩

/-- A row with names that begin like written variables. -/
def sigils : Binding := .ofPairs [(⟨"?x"⟩, .iri "a"), (⟨"$x"⟩, .iri "b"), (⟨""⟩, .blank "c")]

/-- Settings none of which is the standard one. -/
def unusual : Config := ⟨7, .exhaustive, false, false⟩

end Lossless.Instance

open Lossless.Instance in
theorem written_data_read_back_reversed :
    tagged.toJson.Reordered tagged.toJson.reversed ∧
      Quad.ofJson? tagged.toJson.reversed = some tagged ∧
      sigils.toJson.Reordered sigils.toJson.reversed ∧
      Binding.ofJson? sigils.toJson.reversed = some sigils ∧
      unusual.toJson.Reordered unusual.toJson ∧ Config.ofJson? unusual.toJson = some unusual ∧
      (unusual.toJson.without ["collect_stats", "left_join_strategy"]).Reordered
        (unusual.toJson.without ["collect_stats", "left_join_strategy"]).reversed ∧
      Config.ofJson? (unusual.toJson.without ["collect_stats", "left_join_strategy"]).reversed =
        some ⟨7, .auto, false, true⟩ := by
  obtain ⟨⟨-, -, -, hrow, -, -, hquad, -, hconfig⟩, hwithout⟩ := written_data_read_back
  exact ⟨.reversed _, hquad _ _ (.reversed _), .reversed _, hrow _ _ (.reversed _), .refl _,
    hconfig _ _ (.refl _), .reversed _, hwithout _ _ _ (.reversed _)⟩

end TripleQuery
