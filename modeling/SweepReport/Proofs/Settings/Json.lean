import SweepReport.Proofs.Json.Float
import SweepReport.Proofs.Settings.Fields
import SweepReport.Proofs.Text.OsString
import SweepReport.Settings.Json

/-! Settings read from JSON objects. An object can be taken as settings exactly when its members have
different names, each of a field, and values that the fields can hold. It overrides the defaults field
by field, in whatever order its members stand, and settings are read back from what is written for
them. -/
namespace SweepReport.Settings

/-- A JSON value of a kind, and what it stands for. -/
def Kind.Reads : (k : Kind) → Json → k.Value → Prop
  | .text, v, t => v = .text t
  | .path, v, p => ∃ t : String, p = Path.ofText t ∧ v = .text t
  | .count, v, n => v = .number (.integer false (UInt64.toNat n))
  | .real, v, x => ∃ n : Json.Number, v = .number n ∧ n.toFloat = x
  | .place, v, p => ∃ t : Option String, p = t.map Path.ofText ∧ v = t.elim .null .text

theorem textOf?_eq_some_iff {v : Json} {t : String} : textOf? v = some t ↔ v = .text t := by
  cases v <;> simp [textOf?]

theorem degreeOf?_eq_some_iff {v : Json} {n : UInt64} :
    degreeOf? v = some n ↔ v = .number (.integer false n.toNat) := by
  constructor
  · intro h
    unfold degreeOf? at h
    split at h
    · split at h
      · rename_i hn
        obtain rfl := Option.some.inj h
        rw [UInt64.toNat_ofNat_of_lt' hn]
      · contradiction
    · contradiction
  · rintro rfl
    simp [degreeOf?, Numeral.wordSize, UInt64.toNat_lt n]

theorem stepOf?_eq_some_iff {v : Json} {x : Float} :
    stepOf? v = some x ↔ ∃ n : Json.Number, v = .number n ∧ n.toFloat = x := by
  cases v <;> simp [stepOf?]

theorem optionalTextOf?_eq_some_iff {v : Json} {t : Option String} :
    optionalTextOf? v = some t ↔ v = t.elim .null .text := by
  cases v <;> cases t <;> simp [optionalTextOf?, textOf?]

theorem pathOf?_eq_some_iff {v : Json} {p : Path} :
    (textOf? v).map Path.ofText = some p ↔ ∃ t : String, p = Path.ofText t ∧ v = .text t := by
  rw [Option.map_eq_some_iff]
  refine exists_congr fun t => ?_
  rw [textOf?_eq_some_iff, and_comm]
  exact and_congr_left fun _ => eq_comm

theorem placeOf?_eq_some_iff {v : Json} {p : Option Path} :
    (optionalTextOf? v).map (·.map Path.ofText) = some p ↔
      ∃ t : Option String, p = t.map Path.ofText ∧ v = t.elim .null .text := by
  rw [Option.map_eq_some_iff]
  refine exists_congr fun t => ?_
  rw [optionalTextOf?_eq_some_iff, and_comm]
  exact and_congr_left fun _ => eq_comm

/-- The reader of a kind takes the values of the kind, each for what it stands for. -/
theorem read?_eq_some_iff {k : Kind} {v : Json} {x : k.Value} :
    jsonValues.read? k v = some x ↔ k.Reads v x := by
  cases k with
  | text => exact textOf?_eq_some_iff
  | path => exact pathOf?_eq_some_iff
  | count => exact degreeOf?_eq_some_iff
  | real => exact stepOf?_eq_some_iff
  | place => exact placeOf?_eq_some_iff

theorem Kind.Reads.unique {k : Kind} {v : Json} {x y : k.Value} (hx : k.Reads v x)
    (hy : k.Reads v y) : x = y := by
  rw [← read?_eq_some_iff] at hx hy
  exact Option.some.inj (hx.symm.trans hy)

theorem Kind.Reads.ne_broken {k : Kind} {v : Json} {x : k.Value} (h : k.Reads v x) : v ≠ .broken := by
  rintro rfl
  rw [← read?_eq_some_iff] at h
  cases k <;> contradiction

theorem giveJson_eq_ok_iff {s s' : Settings} {f : Field} {v : Json} :
    giveJson s f v = .ok s' ↔ ∃ x, f.kind.Reads v x ∧ s.set f x = s' := by
  unfold giveJson
  split
  · constructor
    · intro h
      contradiction
    · rintro ⟨x, hx, -⟩
      exact absurd rfl hx.ne_broken
  · rw [give?_eq_map_set]
    cases hread : jsonValues.read? f.kind v with
    | none =>
      constructor
      · intro h
        contradiction
      · rintro ⟨x, hx, -⟩
        rw [read?_eq_some_iff.mpr hx] at hread
        contradiction
    | some x =>
      rw [read?_eq_some_iff] at hread
      constructor
      · intro h
        exact ⟨x, hread, Except.ok.inj h⟩
      · rintro ⟨y, hy, rfl⟩
        rw [hy.unique hread]
        rfl

/-- Members that settings can be read from: their names are different names of fields, and their
values stand for something of the field's kind. -/
structure Readable (ms : List (String × Json)) : Prop where
  distinct : (ms.map Prod.fst).Nodup
  fields : ∀ m ∈ ms, ∃ f : Field, m.1 = f.name ∧ ∃ x, f.kind.Reads m.2 x

/-- The settings `s'` are `s` but for the fields that members name, which have the members' values. -/
structure Overridden (ms : List (String × Json)) (s s' : Settings) : Prop where
  named : ∀ (f : Field) (v : Json), (f.name, v) ∈ ms → f.kind.Reads v (s'.value f)
  others : ∀ f : Field, f.name ∉ ms.map Prod.fst → s'.value f = s.value f

section
variable {ms ms' : List (String × Json)} {s s' s'' : Settings} {f : Field} {v : Json}

theorem Overridden.unique (h' : Overridden ms s s') (h'' : Overridden ms s s'') : s' = s'' := by
  refine eq_of_value_eq fun f => ?_
  by_cases hf : f.name ∈ ms.map Prod.fst
  · obtain ⟨⟨k, v⟩, hm, hk⟩ := List.mem_map.mp hf
    obtain rfl : k = f.name := hk
    exact (h'.named f v hm).unique (h''.named f v hm)
  · rw [h'.others f hf, h''.others f hf]

theorem Readable.perm (h : Readable ms) (hperm : ms.Perm ms') : Readable ms' where
  distinct := (hperm.map Prod.fst).nodup_iff.mp h.distinct
  fields m hm := h.fields m (hperm.mem_iff.mpr hm)

theorem Overridden.perm (h : Overridden ms s s') (hperm : ms.Perm ms') : Overridden ms' s s' where
  named f v hm := h.named f v (hperm.mem_iff.mpr hm)
  others f hf := h.others f fun hmem => hf ((hperm.map Prod.fst).mem_iff.mp hmem)

theorem Overridden.refl (s : Settings) : Overridden [] s s :=
  ⟨fun _ _ hm => absurd hm List.not_mem_nil, fun _ _ => rfl⟩

/-- The first member overrides its field, which no later one names. -/
theorem overridden_cons_iff {x : f.kind.Value} (hx : f.kind.Reads v x)
    (hfresh : f.name ∉ ms.map Prod.fst) :
    Overridden ((f.name, v) :: ms) s s' ↔ Overridden ms (s.set f x) s' := by
  constructor
  · refine fun h => ⟨fun g w hw => h.named g w (List.mem_cons_of_mem _ hw), fun g hg => ?_⟩
    by_cases hgf : g = f
    · subst hgf
      rw [value_set_self]
      exact (h.named g v List.mem_cons_self).unique hx
    · rw [value_set_of_ne s hgf]
      refine h.others g fun hmem => ?_
      rcases List.mem_cons.mp hmem with hname | hmem
      · exact hgf (Field.name_injective hname)
      · exact hg hmem
  · refine fun h => ⟨fun g w hw => ?_, fun g hg => ?_⟩
    · rcases List.mem_cons.mp hw with heq | hw
      · obtain ⟨hname, rfl⟩ := Prod.mk.inj heq
        obtain rfl := Field.name_injective hname
        rwa [h.others g hfresh, value_set_self]
      · exact h.named g w hw
    · rw [List.map_cons, List.mem_cons, not_or] at hg
      rw [h.others g hg.2, value_set_of_ne]
      rintro rfl
      exact hg.1 rfl

theorem readable_cons_iff {k : String} : Readable ((k, v) :: ms) ↔
    (∃ f : Field, k = f.name ∧ ∃ x, f.kind.Reads v x) ∧ k ∉ ms.map Prod.fst ∧ Readable ms := by
  constructor
  · rintro ⟨hdistinct, hfields⟩
    obtain ⟨hk, hdistinct⟩ := List.nodup_cons.mp hdistinct
    obtain ⟨hfirst, hfields⟩ := List.forall_mem_cons.mp hfields
    exact ⟨hfirst, hk, hdistinct, hfields⟩
  · rintro ⟨hfirst, hk, hdistinct, hfields⟩
    exact ⟨List.nodup_cons.mpr ⟨hk, hdistinct⟩, List.forall_mem_cons.mpr ⟨hfirst, hfields⟩⟩

/-- A member is given to its field, unless the field was given before. -/
theorem giveMembers_cons_eq_ok_iff {given : List Field} {k : String} :
    giveMembers s given ((k, v) :: ms) = .ok s' ↔
      ∃ (f : Field) (x : f.kind.Value), k = f.name ∧ f ∉ given ∧ f.kind.Reads v x ∧
        giveMembers (s.set f x) (f :: given) ms = .ok s' := by
  rw [giveMembers]
  constructor
  · intro h
    split at h
    · contradiction
    rename_i f hf
    split at h
    · contradiction
    rename_i hgiven
    split at h
    · contradiction
    rename_i next hgive
    obtain ⟨x, hx, rfl⟩ := giveJson_eq_ok_iff.mp hgive
    exact ⟨f, x, Field.ofName?_eq_some_iff.mp hf, hgiven, hx, h⟩
  · rintro ⟨f, x, rfl, hgiven, hx, h⟩
    rw [Field.ofName?_name]
    dsimp only
    rw [if_neg hgiven, giveJson_eq_ok_iff.mpr ⟨x, hx, rfl⟩]
    exact h

/-- Members are given one after another exactly if they can be read and no field is given twice. -/
theorem giveMembers_eq_ok_iff {given : List Field} :
    giveMembers s given ms = .ok s' ↔
      Readable ms ∧ (∀ f ∈ given, f.name ∉ ms.map Prod.fst) ∧ Overridden ms s s' := by
  induction ms generalizing s given with
  | nil =>
    constructor
    · intro h
      obtain rfl := Except.ok.inj h
      exact ⟨⟨List.nodup_nil, fun _ hm => absurd hm List.not_mem_nil⟩, fun _ _ => List.not_mem_nil,
        .refl s⟩
    · rintro ⟨-, -, h⟩
      rw [giveMembers, (Overridden.refl s).unique h]
  | cons m ms ih =>
    obtain ⟨k, v⟩ := m
    simp only [giveMembers_cons_eq_ok_iff, ih, readable_cons_iff]
    constructor
    · rintro ⟨f, x, rfl, hgiven, hx, hms, hfresh, hover⟩
      obtain ⟨hf, hrest⟩ := List.forall_mem_cons.mp hfresh
      refine ⟨⟨⟨f, rfl, x, hx⟩, hf, hms⟩, fun g hg hmem => ?_, (overridden_cons_iff hx hf).mpr hover⟩
      rcases List.mem_cons.mp hmem with hname | hmem
      · exact hgiven (Field.name_injective hname ▸ hg)
      · exact hrest g hg hmem
    · rintro ⟨⟨⟨f, rfl, x, hx⟩, hf, hms⟩, hfresh, hover⟩
      have hrest (g : Field) (hg : g ∈ given) : g.name ∉ ms.map Prod.fst :=
        fun hmem => hfresh g hg (List.mem_cons_of_mem _ hmem)
      exact ⟨f, x, rfl, fun hmem => hfresh f hmem List.mem_cons_self, hx, hms,
        List.forall_mem_cons.mpr ⟨hf, hrest⟩, (overridden_cons_iff hx hf).mp hover⟩

/-- A text that holds an object is decoded exactly if its members can be read, and to the settings
that they override the defaults with. -/
theorem decode_eq_ok_iff {text : String} (htext : Json.read text = ⟨.object ms true, true⟩) :
    decode text = .ok s ↔ Readable ms ∧ Overridden ms {} s := by
  have hdecode : decode text = giveMembers {} [] ms := by
    rw [decode, htext]
    cases hms : giveMembers {} [] ms <;> simp [ofJson, ofJson.whenClosed, hms, bind, Except.bind]
  rw [hdecode, giveMembers_eq_ok_iff]
  simp

theorem Readable.exists_overridden (h : Readable ms) (s : Settings) : ∃ s', Overridden ms s s' := by
  induction ms generalizing s with
  | nil => exact ⟨s, .refl s⟩
  | cons m ms ih =>
    obtain ⟨k, v⟩ := m
    obtain ⟨⟨f, rfl, x, hx⟩, hf, hms⟩ := readable_cons_iff.mp h
    obtain ⟨s', hs'⟩ := ih hms (s.set f x)
    exact ⟨s', (overridden_cons_iff hx hf).mpr hs'⟩

end

section
variable {s : Settings}

theorem complete_jsonOf (hs : s.curveStep.isFinite) (f : Field) : (s.jsonOf f).Complete := by
  cases f with
  | curveStep => exact Json.complete_ofFloat hs
  | fitDegree => exact .number (Json.isFinite_word s.fitDegree)
  | output =>
    rw [jsonOf]
    cases s.output with
    | none => exact .null
    | some p => exact .text _
  | _ => exact .text _

theorem reads_path {p : Path} (h : p.raw.IsText) : Kind.path.Reads (.text p.raw.lossy) p :=
  ⟨p.raw.lossy, congrArg Path.mk h.ofText_lossy.symm, rfl⟩

theorem reads_jsonOf (hs : s.curveStep.isFinite) (htexts : ∀ p ∈ s.paths, p.raw.IsText) (f : Field) :
    f.kind.Reads (s.jsonOf f).asRead (s.value f) := by
  cases f with
  | resultsDir | samplesFile | plotScript | plotDataDir => exact reads_path (htexts _ (by simp [paths]))
  | curveStep =>
    obtain ⟨n, hn, -, hread⟩ := Json.ofFloat_eq_number hs
    exact ⟨n.asRead, by rw [jsonOf, hn]; rfl, hread⟩
  | output =>
    refine ⟨s.output.map fun p => p.raw.lossy, ?_, ?_⟩
    · rw [value, Option.map_map]
      cases houtput : s.output with
      | none => rfl
      | some p =>
        have htext : p.raw.IsText := htexts p (by simp [paths, houtput])
        exact congrArg (some ∘ Path.mk) htext.ofText_lossy.symm
    · rw [jsonOf]
      cases s.output <;> rfl
  | _ => rfl

def writtenMembers (s : Settings) : List (String × Json) :=
  Field.all.map fun f => (f.name, (s.jsonOf f).asRead)

theorem names_writtenMembers (s : Settings) :
    s.writtenMembers.map Prod.fst = Field.all.map Field.name := by
  rw [writtenMembers, List.map_map]
  rfl

theorem exists_toJson? (hs : s.curveStep.isFinite) (htexts : ∀ p ∈ s.paths, p.raw.IsText) :
    ∃ j, s.toJson? = some j ∧ Json.read j.render = ⟨.object s.writtenMembers true, true⟩ := by
  have hwritten : s.paths.all (·.raw.text?.isSome) := by
    refine List.all_eq_true.mpr fun p hp => ?_
    obtain ⟨t, ht⟩ := htexts p hp
    rw [OsString.text?_eq_some_iff.mpr ht, Option.isSome_some]
  have hcomplete : (Json.objectOf (Field.all.map fun f => (f.name, s.jsonOf f))).Complete :=
    .object (List.forall_mem_map.mpr fun f _ => complete_jsonOf hs f)
  refine ⟨_, if_pos hwritten, ?_⟩
  rw [Json.read_render hcomplete, Json.asRead_objectOf, List.map_map]
  rfl

theorem readable_writtenMembers (hs : s.curveStep.isFinite) (htexts : ∀ p ∈ s.paths, p.raw.IsText) :
    Readable s.writtenMembers where
  distinct := by
    rw [names_writtenMembers]
    decide
  fields := List.forall_mem_map.mpr fun f _ => ⟨f, rfl, s.value f, reads_jsonOf hs htexts f⟩

/-- Every field is among the members, so nothing is left of the settings before. -/
theorem overridden_writtenMembers (hs : s.curveStep.isFinite) (htexts : ∀ p ∈ s.paths, p.raw.IsText)
    (before : Settings) : Overridden s.writtenMembers before s where
  named f v hm := by
    obtain ⟨g, -, hg⟩ := List.mem_map.mp hm
    obtain ⟨hname, rfl⟩ := Prod.mk.inj hg
    obtain rfl := Field.name_injective hname
    exact reads_jsonOf hs htexts g
  others f hf := by
    rw [names_writtenMembers] at hf
    exact absurd (List.mem_map_of_mem f.mem_all) hf

end

/-- Settings are decoded from a JSON object exactly if its members have different names, each of a
field and with a value of the field's type and range. Then the fields that are named have the values
of the members, and all others the defaults. The order of the members does not matter, and settings
with a finite step, whose paths are texts, are decoded from what is written for them. -/
theorem decode_overrides_defaults :
    (∀ (text : String) (ms : List (String × Json)), Json.read text = ⟨.object ms true, true⟩ →
      ((∃ s, decode text = .ok s) ↔ Readable ms) ∧
      (∀ s, decode text = .ok s → Overridden ms {} s) ∧
      ∀ (text' : String) (ms' : List (String × Json)),
        Json.read text' = ⟨.object ms' true, true⟩ → ms.Perm ms' →
        ∀ s, decode text = .ok s → decode text' = .ok s) ∧
    ∀ s : Settings, s.curveStep.isFinite → (∀ p ∈ s.paths, p.raw.IsText) →
      ∃ j, s.toJson? = some j ∧ decode j.render = .ok s := by
  refine ⟨fun text ms htext => ⟨⟨?_, fun hms => ?_⟩, fun s hs => ?_, ?_⟩, fun s hs htexts => ?_⟩
  · rintro ⟨s, hs⟩
    exact ((decode_eq_ok_iff htext).mp hs).1
  · obtain ⟨s, hs⟩ := hms.exists_overridden {}
    exact ⟨s, (decode_eq_ok_iff htext).mpr ⟨hms, hs⟩⟩
  · exact ((decode_eq_ok_iff htext).mp hs).2
  · intro text' ms' htext' hperm s hs
    obtain ⟨hms, hover⟩ := (decode_eq_ok_iff htext).mp hs
    exact (decode_eq_ok_iff htext').mpr ⟨hms.perm hperm, hover.perm hperm⟩
  · obtain ⟨j, hj, hread⟩ := exists_toJson? hs htexts
    exact ⟨j, hj, (decode_eq_ok_iff hread).mpr
      ⟨readable_writtenMembers hs htexts, overridden_writtenMembers hs htexts {}⟩⟩

/-- Two fields in both orders, one of them at the greatest degree that there is, and the defaults, which
are decoded from what is written for them. -/
theorem decode_overrides_two_fields :
    (∃ j, ({} : Settings).toJson? = some j ∧ decode j.render = .ok {}) ∧
    ∃ s : Settings,
      decode "\x7b\"group\":\"oak\",\"fit_degree\":18446744073709551615\x7d" = .ok s ∧
      decode "\x7b\"fit_degree\":18446744073709551615,\"group\":\"oak\"\x7d" = .ok s ∧
      Overridden [("group", .text "oak"), ("fit_degree", .number (.integer false 18446744073709551615))]
        {} s := by
  have hread (text : String) (m m' : String × Json)
      (htext : text = (Json.objectOf [m, m']).render) (hm : m.2.Complete) (hm' : m'.2.Complete) :
      Json.read text = ⟨.object [(m.1, m.2.asRead), (m'.1, m'.2.asRead)] true, true⟩ := by
    have hcomplete : (Json.objectOf [m, m']).Complete :=
      .object (List.forall_mem_cons.mpr ⟨hm, List.forall_mem_singleton.mpr hm'⟩)
    rw [htext, Json.read_render hcomplete, Json.asRead_objectOf]
    rfl
  have hoak : (Json.text "oak").Complete := .text _
  have hlast : (Json.number (.integer false 18446744073709551615)).Complete :=
    .number (Json.isFinite_word 18446744073709551615)
  have htext := hread "\x7b\"group\":\"oak\",\"fit_degree\":18446744073709551615\x7d"
    ("group", .text "oak") ("fit_degree", .number (.integer false 18446744073709551615))
    (by decide +kernel) hoak hlast
  have htext' := hread "\x7b\"fit_degree\":18446744073709551615,\"group\":\"oak\"\x7d"
    ("fit_degree", .number (.integer false 18446744073709551615)) ("group", .text "oak")
    (by decide +kernel) hlast hoak
  have hms : Readable
      [("group", .text "oak"), ("fit_degree", .number (.integer false 18446744073709551615))] :=
    ⟨by decide, List.forall_mem_cons.mpr ⟨⟨.group, rfl, "oak", rfl⟩,
      List.forall_mem_singleton.mpr ⟨.fitDegree, rfl, (18446744073709551615 : UInt64), rfl⟩⟩⟩
  obtain ⟨hiff, hover, hperm⟩ := decode_overrides_defaults.1 _ _ htext
  obtain ⟨s, hs⟩ := hiff.mpr hms
  have htexts : ∀ p ∈ ({} : Settings).paths, p.raw.IsText := by
    intro p hp
    obtain ⟨t, ht, rfl⟩ : ∃ t ∈ ["target/criterion", "new/raw.csv", "plots/batched_analysis.py",
        "plot_data"], Path.ofText t = p := List.mem_map.mp hp
    exact ⟨t, rfl⟩
  exact ⟨decode_overrides_defaults.2 {} (by decide +kernel) htexts,
    s, hs, hperm _ _ htext' (.swap _ _ _) s hs, hover s hs⟩

end SweepReport.Settings
