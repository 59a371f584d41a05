import SweepReport.Journal.Filter
import SweepReport.Proofs.Numeral.Word
import SweepReport.Proofs.Text.Trim

/-! What the text of a directive says of its target. The target is cut from the start of the text, so the
directives for targets that start with the name of a module are those whose text does. -/
namespace SweepReport

def byteCount (cs : List Char) : Nat := (cs.map Char.utf8Size).sum

@[simp] theorem byteCount_cons (c : Char) (cs : List Char) :
    byteCount (c :: cs) = c.utf8Size + byteCount cs := by simp [byteCount]

theorem dropBytes?_zero (cs : List Char) : dropBytes? 0 cs = some cs := by
  cases cs <;> rfl

theorem takeBytes?_cons {n : Nat} (hn : n ≠ 0) (c : Char) (cs : List Char) :
    takeBytes? n (c :: cs) =
      if c.utf8Size ≤ n then (takeBytes? (n - c.utf8Size) cs).map (c :: ·) else none := by
  rw [takeBytes?]
  · rfl
  · exact hn

theorem takeBytes?_start {n : Nat} {cs xs : List Char} (h : takeBytes? n cs = some xs) :
    xs <+: cs := by
  induction cs generalizing n xs with
  | nil =>
    cases n with
    | zero => cases h; exact List.prefix_rfl
    | succ n => cases h
  | cons c cs ih =>
    rcases Nat.eq_zero_or_pos n with rfl | hn
    · cases h
      exact List.nil_prefix
    · rw [takeBytes?_cons hn.ne'] at h
      split at h
      · obtain ⟨ys, hys, rfl⟩ := Option.map_eq_some_iff.mp h
        exact List.cons_prefix_cons.mpr ⟨rfl, ih hys⟩
      · cases h

theorem takeBytes?_append (name rest : List Char) :
    takeBytes? (byteCount name) (name ++ rest) = some name := by
  induction name with
  | nil => cases rest <;> rfl
  | cons c name ih =>
    have hpos := c.utf8Size_pos
    rw [byteCount_cons, List.cons_append, takeBytes?_cons (by omega), if_pos (by omega),
      Nat.add_sub_cancel_left, ih]
    rfl

theorem dropBytes?_append (name rest : List Char) :
    dropBytes? (byteCount name) (name ++ rest) = some rest := by
  induction name with
  | nil => exact dropBytes?_zero rest
  | cons c name ih =>
    have hpos := c.utf8Size_pos
    rw [byteCount_cons, List.cons_append, dropBytes?, if_pos (by omega), Nat.add_sub_cancel_left, ih]
    omega

/-- What is taken holds a start of the text that is not longer. -/
theorem prefix_of_takeBytes? {name rest xs : List Char} {n : Nat} (hn : byteCount name ≤ n)
    (h : takeBytes? n (name ++ rest) = some xs) : name <+: xs := by
  induction name generalizing n xs with
  | nil => exact List.nil_prefix
  | cons c name ih =>
    rw [byteCount_cons] at hn
    have hpos := c.utf8Size_pos
    rw [List.cons_append, takeBytes?_cons (by omega), if_pos (by omega)] at h
    obtain ⟨ys, hys, rfl⟩ := Option.map_eq_some_iff.mp h
    exact List.cons_prefix_cons.mpr ⟨rfl, ih (by omega) hys⟩

namespace Directive

theorem part_zero_eq_ok {text : List Char} {last : Nat} {s : String}
    (h : part text 0 last = .ok s) : takeBytes? last text = some s.toList := by
  rw [part, dropBytes?_zero] at h
  cases htake : takeBytes? last text with
  | none => simp [htake] at h
  | some xs =>
    simp only [Option.bind_eq_bind, Option.bind_some, Nat.sub_zero, htake, Except.ok.injEq] at h
    rw [← h, String.toList_ofList]

theorem partFrom_zero (text : List Char) : partFrom text 0 = .ok (String.ofList text) := by
  rw [partFrom, dropBytes?_zero]

theorem target_withLevel {d d' : Directive} {s : String} (h : d.withLevel s = .ok d') :
    d'.target = d.target := by
  unfold withLevel at h
  split at h
  · cases h
    rfl
  · split at h <;> cases h
    rfl

theorem target_withField {d d' : Directive} {s : String} (h : d.withField s = .ok d') :
    d'.target = d.target := by
  unfold withField at h
  split at h
  · cases h
  · dsimp only at h
    split at h
    · obtain ⟨-, -, hend⟩ := bind_eq_ok_iff.mp h
      cases hend
      rfl
    · cases h
      rfl

/-- The states in which the target has been read, if there is one. -/
def State.IsLater : State → Prop
  | .start | .levelOrTarget _ => False
  | _ => True

theorem step_later {text : List Char} {d d' : Directive} {place : Nat} {c : Char} {s s' : State}
    (hs : s.IsLater) (hstep : d.step text place c s = .ok (d', s')) :
    d'.target = d.target ∧ s'.IsLater := by
  cases s with
  | start => exact hs.elim
  | levelOrTarget first => exact hs.elim
  | span first =>
    simp only [step] at hstep
    split at hstep
    · obtain ⟨span, -, heq⟩ := map_eq_ok_iff.mp hstep
      cases heq
      exact ⟨rfl, trivial⟩
    · split at hstep
      · obtain ⟨span, -, heq⟩ := map_eq_ok_iff.mp hstep
        cases heq
        exact ⟨rfl, trivial⟩
      · cases hstep
        exact ⟨rfl, trivial⟩
  | field first =>
    simp only [step] at hstep
    split at hstep
    · obtain ⟨field, -, hstep⟩ := bind_eq_ok_iff.mp hstep
      obtain ⟨d₁, hd₁, heq⟩ := bind_eq_ok_iff.mp hstep
      cases heq
      exact ⟨target_withField hd₁, trivial⟩
    · split at hstep
      · obtain ⟨field, -, hstep⟩ := bind_eq_ok_iff.mp hstep
        obtain ⟨d₁, hd₁, heq⟩ := bind_eq_ok_iff.mp hstep
        cases heq
        exact ⟨target_withField hd₁, trivial⟩
      · cases hstep
        exact ⟨rfl, trivial⟩
  | fields =>
    simp only [step] at hstep
    split at hstep <;> cases hstep
    exact ⟨rfl, trivial⟩
  | afterSpan =>
    simp only [step] at hstep
    split at hstep <;> cases hstep
    exact ⟨rfl, trivial⟩
  | level first =>
    simp only [step] at hstep
    split at hstep
    · obtain ⟨level, -, hstep⟩ := bind_eq_ok_iff.mp hstep
      obtain ⟨d₁, hd₁, heq⟩ := bind_eq_ok_iff.mp hstep
      cases heq
      exact ⟨target_withLevel hd₁, trivial⟩
    · cases hstep
      exact ⟨rfl, trivial⟩
  | complete => cases hstep

theorem target_run_later {text : List Char} {d d' : Directive} {place : Nat} {s : State}
    {cs : List Char} (hrun : run text d place s cs = .ok d') (hs : s.IsLater) :
    d'.target = d.target := by
  induction cs generalizing d place s with
  | nil =>
    rw [run] at hrun
    cases s with
    | level first =>
      obtain ⟨level, -, hlevel⟩ := bind_eq_ok_iff.mp hrun
      exact target_withLevel hlevel
    | afterSpan | complete =>
      cases hrun
      rfl
    | start | levelOrTarget first => exact hs.elim
    | span first | field first | fields => cases hrun
  | cons c cs ih =>
    rw [run] at hrun
    split at hrun
    · cases hrun
    · rename_i hstep
      obtain ⟨htarget, hs'⟩ := step_later hs hstep
      rw [ih hrun hs', htarget]

/-- A target that has been begun ends at a sign or with the text: it is cut off there, or else the whole
text is a target or a level. -/
theorem target_run_begun {text : List Char} {d d' : Directive} {place : Nat} {cs : List Char}
    (hrun : run text d place (.levelOrTarget 0) cs = .ok d') :
    (∃ last s, place ≤ last ∧ part text 0 last = .ok s ∧ d'.target = some s) ∨
      d'.target = (d.levelOrTarget (String.ofList text)).target := by
  induction cs generalizing place with
  | nil =>
    rw [run, finish, partFrom_zero] at hrun
    cases hrun
    exact .inr rfl
  | cons c cs ih =>
    rw [run] at hrun
    split at hrun
    · cases hrun
    · rename_i d₁ s₁ hstep
      simp only [step] at hstep
      split at hstep
      · obtain ⟨s, hs, heq⟩ := map_eq_ok_iff.mp hstep
        cases heq
        exact .inl ⟨place, s, Nat.le_refl _, hs, target_run_later hrun trivial⟩
      · split at hstep
        · obtain ⟨s, hs, heq⟩ := map_eq_ok_iff.mp hstep
          cases heq
          exact .inl ⟨place, s, Nat.le_refl _, hs, target_run_later hrun trivial⟩
        · split at hstep
          · rw [partFrom_zero] at hstep
            cases hstep
            exact .inr (target_run_later hrun trivial)
          · cases hstep
            exact (ih hrun).imp_left fun ⟨last, s, hlast, hs⟩ =>
              ⟨last, s, Nat.le_trans (Nat.le_add_right _ _) hlast, hs⟩

theorem target_starts_text {s t : String} {d : Directive} (h : ofText s = .ok d)
    (htarget : d.target = some t) : t.toList <+: s.toList := by
  rw [ofText] at h
  cases htrim : Text.trim s.toList with
  | nil =>
    rw [htrim] at h
    cases h
  | cons c cs =>
    rw [htrim, run] at h
    split at h
    · cases h
    · rename_i d₁ s₁ hstep
      simp only [step] at hstep
      split at hstep
      · cases hstep
        rw [target_run_later h trivial] at htarget
        cases htarget
      · split at hstep
        · cases hstep
          obtain ⟨last, part, -, hpart, htarget'⟩ | hwhole := target_run_begun h
          · rw [htarget', Option.some.injEq] at htarget
            exact htarget ▸ takeBytes?_start (part_zero_eq_ok hpart)
          · rw [hwhole, levelOrTarget, String.ofList_toList] at htarget
            split at htarget
            · cases htarget
            · cases htarget
              exact List.prefix_rfl
        · cases hstep

/-- Letters that end no target are gone over. -/
theorem run_plain {text cs rest : List Char} {d : Directive} {place first : Nat}
    (hcs : ∀ c ∈ cs, c ≠ '=' ∧ c ≠ '[' ∧ c ≠ ',') :
    run text d place (.levelOrTarget first) (cs ++ rest) =
      run text d (place + byteCount cs) (.levelOrTarget first) rest := by
  induction cs generalizing place with
  | nil => simp [byteCount]
  | cons c cs ih =>
    obtain ⟨⟨hlevel, hspan, hcomma⟩, htail⟩ := List.forall_mem_cons.mp hcs
    rw [List.cons_append, run]
    simp only [step, hlevel, hspan, hcomma, if_false]
    rw [ih htail, byteCount_cons, Nat.add_assoc]

theorem run_level {text cs : List Char} {d : Directive} {place first : Nat} (hcs : ',' ∉ cs) :
    run text d place (.level first) cs = d.finish text (.level first) := by
  induction cs generalizing place with
  | nil => rfl
  | cons c cs ih =>
    have hc : c ≠ ',' := fun heq => hcs (by simp [heq])
    rw [run]
    simp only [step, hc, if_false]
    exact ih fun hmem => hcs (List.mem_cons_of_mem c hmem)

/-- A name that is read as a target and as nothing else, whatever follows it. -/
structure ModuleName (name : List Char) : Prop where
  starts : name.head?.any startsDirective = true
  plain : ∀ c ∈ name, c ≠ '=' ∧ c ≠ '[' ∧ c ≠ ','
  solid : ∀ c ∈ name, Text.isBlank c = false
  noNumber : ∀ c ∈ name.head?, Numeral.isDigit c = false ∧ c ≠ '+'
  noLevel : ∀ level ∈ Threshold.names, name.map Char.toLower <+: level.toList → False

namespace ModuleName
variable {name : List Char} (h : ModuleName name)
include h

theorem exists_cons : ∃ c cs, name = c :: cs ∧ startsDirective c = true := by
  have hstarts := h.starts
  cases name with
  | nil => cases hstarts
  | cons c cs => exact ⟨c, cs, rfl, by simpa using hstarts⟩

theorem not_level {s : String} (hs : name <+: s.toList) : Threshold.ofText? s = none := by
  obtain ⟨c, cs, hname, -⟩ := h.exists_cons
  obtain ⟨rest, hrest⟩ := hs
  obtain ⟨hdigit, hplus⟩ := h.noNumber c (by simp [hname])
  have htext : s.toList = c :: (cs ++ rest) := by rw [← hrest, hname, List.cons_append]
  have hword : Numeral.word? s = none := by
    refine Option.eq_none_iff_forall_ne_some.mpr fun w hw => ?_
    obtain ⟨digits, hform, -, hdigits, -⟩ := Numeral.word?_eq_some_iff.mp hw
    rw [htext] at hform
    obtain rfl | hsign := hform
    · rw [hdigits c List.mem_cons_self] at hdigit
      contradiction
    · exact hplus (List.cons.inj hsign).1
  have hempty : s.isEmpty = false := by
    cases hs : s.isEmpty with
    | false => rfl
    | true =>
      rw [String.isEmpty_iff.mp hs, String.toList_empty] at htext
      cases htext
  have hlower : String.ofList (s.toList.map Char.toLower) ∉ Threshold.names := by
    intro hmem
    refine h.noLevel _ hmem ?_
    rw [String.toList_ofList, ← hrest, List.map_append]
    exact List.prefix_append _ _
  rw [Threshold.ofText?, hword]
  simpa [hempty, List.idxOf?_eq_none_iff] using hlower

theorem exists_trim {cs : List Char} (hcs : name <+: cs) : ∃ rest, Text.trim cs = name ++ rest := by
  obtain ⟨rest, rfl⟩ := hcs
  obtain ⟨c, tail, hname, -⟩ := h.exists_cons
  have hstart : Text.trimStart (name ++ rest) = name ++ rest := by
    refine Text.trimStart_eq_self fun d hd => h.solid d ?_
    rw [hname] at hd ⊢
    exact List.mem_cons.mpr (.inl (Option.some.inj hd).symm)
  rw [Text.trim, hstart]
  refine ⟨Text.trimEnd rest, ?_⟩
  have hsolid := h.solid
  clear hname hstart h
  induction name with
  | nil => rfl
  | cons c name ih =>
    obtain ⟨hc, hname⟩ := List.forall_mem_cons.mp hsolid
    have hsome : ¬ Text.Blanks (c :: (name ++ rest)) := fun hblank =>
      absurd (hblank c List.mem_cons_self) (by simp [hc])
    rw [List.cons_append, Text.trimEnd_cons hsome, ih hname, List.cons_append]

theorem run_append {text rest : List Char} {d : Directive} :
    run text d 0 .start (name ++ rest) = run text d (byteCount name) (.levelOrTarget 0) rest := by
  obtain ⟨c, cs, hname, hstarts⟩ := h.exists_cons
  have hplain := h.plain
  subst hname
  obtain ⟨⟨-, hspan, -⟩, hcs⟩ := List.forall_mem_cons.mp hplain
  rw [List.cons_append, run]
  simp only [step, hspan, hstarts, if_false, if_true]
  rw [run_plain hcs, Nat.zero_add, byteCount_cons]

/-- A directive whose text starts with the name has a target that does. -/
theorem target_of_text {s : String} {d : Directive} (hs : name <+: s.toList)
    (hd : ofText s = .ok d) : ∃ t, d.target = some t ∧ name <+: t.toList := by
  obtain ⟨rest, htrim⟩ := h.exists_trim hs
  rw [ofText, htrim, h.run_append] at hd
  obtain ⟨last, t, hlast, hpart, htarget⟩ | hwhole := target_run_begun hd
  · obtain ⟨tail, htail⟩ := hs
    have htake := part_zero_eq_ok hpart
    rw [← htail] at htake
    exact ⟨t, htarget, prefix_of_takeBytes? hlast htake⟩
  · rw [String.ofList_toList, levelOrTarget, h.not_level hs] at hwhole
    exact ⟨s, hwhole, hs⟩

theorem ofText_level {level : String} {t : Threshold} (hlevel : Threshold.ofText? level = some t)
    (hne : level ≠ "") (hcomma : ',' ∉ level.toList) (htrimmed : Text.Trimmed level.toList) :
    ofText (String.ofList name ++ "=" ++ level) = .ok (forTarget (String.ofList name) t) := by
  have htext : (String.ofList name ++ "=" ++ level).toList = name ++ '=' :: level.toList := by
    simp
  have htrim : Text.trim (name ++ '=' :: level.toList) = name ++ '=' :: level.toList := by
    refine Text.Trimmed.trim_eq ⟨fun c hc => ?_, fun c hc => ?_⟩
    · obtain ⟨d, ds, hname, -⟩ := h.exists_cons
      rw [hname] at hc
      exact h.solid c (by rw [hname]; exact List.mem_cons.mpr (.inl (Option.some.inj hc).symm))
    · rw [List.getLast?_append, List.getLast?_cons] at hc
      cases hlast : level.toList.getLast? with
      | none => exact absurd (List.getLast?_eq_none_iff.mp hlast) (by simpa using hne)
      | some d =>
        rw [hlast] at hc
        cases hc
        exact htrimmed.last d hlast
  have hsize : byteCount name + 1 = byteCount (name ++ ['=']) := by
    simp [byteCount]
    rfl
  have hsplit : name ++ '=' :: level.toList = (name ++ ['=']) ++ level.toList := by simp
  rw [ofText, htext, htrim, h.run_append, run]
  simp only [step, if_true, part, dropBytes?_zero, Option.bind_eq_bind, Option.bind_some, Nat.sub_zero,
    takeBytes?_append, Except.map]
  rw [run_level hcomma, finish]
  rw [partFrom, hsize, hsplit, dropBytes?_append]
  simp [withLevel, hne, hlevel, Except.bind, bind, forTarget, blank]

end ModuleName

end Directive
end SweepReport
