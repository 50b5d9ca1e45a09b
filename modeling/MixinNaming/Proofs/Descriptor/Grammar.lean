import MixinNaming.Proofs.Descriptor.FieldReading
import MixinNaming.Proofs.Outcome
/-! The grammar of descriptors. A text is a descriptor exactly if it is the rendering of a tree
whose class names are all legal. There is no other such tree, and to rewrite the class names of the
text is to rewrite them in the tree. -/
namespace MixinNaming

variable {cs rest : List Char}

theorem legalClassName_iff {name : String} :
    LegalClassName name ↔ name.toList ≠ [] ∧ name.toList.all isNameChar = true :=
  and_congr_right fun _ => List.all_eq_true.symm

/-- No type begins with a character that the reader of a method takes for something else. -/
theorem FieldType.chars_eq_cons {t : FieldType} (h : t.Legal) :
    ∃ c cs, t.chars = c :: cs ∧ c ≠ '(' ∧ c ≠ ')' ∧ c ≠ 'V' := by
  obtain ⟨dimensions, base⟩ := t
  cases dimensions with
  | zero =>
    cases base with
    | primitive p => exact ⟨p.code, [], rfl, by cases p <;> decide⟩
    | reference name => exact ⟨'L', name.toList ++ [';'], rfl, by decide⟩
  | succ n =>
    refine ⟨'[', List.replicate n '[' ++ base.chars, ?_, by decide⟩
    rw [FieldType.chars, List.replicate_succ, List.cons_append]

theorem readName_append {name : String} (h : LegalClassName name) (rest : List Char) :
    readName (name.toList ++ ';' :: rest) = .ok (.reference name, rest) := by
  obtain ⟨hne, hall⟩ := h
  rw [readName_of_end hall (by decide), if_pos rfl, if_neg hne, String.ofList_toList]

/-- A legal type is read off the front of any text that begins with it. -/
theorem readFieldType_append {t : FieldType} (h : t.Legal) (rest : List Char) :
    readFieldType (t.chars ++ rest) = .ok (t, rest) := by
  obtain ⟨dimensions, base⟩ := t
  induction dimensions with
  | zero =>
    cases base with
    | primitive p => cases p <;> rfl
    | reference name =>
      have hchars : FieldType.chars ⟨0, .reference name⟩ ++ rest =
          'L' :: (name.toList ++ ';' :: rest) := by
        simp [FieldType.chars, BaseType.chars]
      have hL : ('L' : Char) ≠ '[' := by decide
      rw [hchars, readFieldType, if_neg hL, if_pos rfl, readName_append h]
      rfl
  | succ n ih =>
    have hchars : FieldType.chars ⟨n + 1, base⟩ ++ rest =
        '[' :: (FieldType.chars ⟨n, base⟩ ++ rest) := by
      simp [FieldType.chars, List.replicate_succ]
    rw [hchars, readFieldType, if_pos rfl, ih h]
    rfl

section Arguments

/-- Legal types at the front are read one by one, whatever follows them. -/
theorem readArguments_types {types : List FieldType} (h : ∀ t ∈ types, t.Legal)
    (rest : List Char) :
    readArguments (types.flatMap FieldType.chars ++ rest) =
      (types ++ (readArguments rest).1, (readArguments rest).2) := by
  induction types with
  | nil => rfl
  | cons t more ih =>
    rw [List.forall_mem_cons] at h
    obtain ⟨ht, hmore⟩ := h
    obtain ⟨c, cs, hcs, -, hc, -⟩ := t.chars_eq_cons ht
    have hread := readFieldType_append ht (more.flatMap FieldType.chars ++ rest)
    rw [hcs, List.cons_append] at hread
    rw [List.flatMap_cons, List.append_assoc, hcs, List.cons_append, readArguments_type hc hread,
      ih hmore]
    rfl

theorem readArguments_append {arguments : List FieldType} (h : ∀ t ∈ arguments, t.Legal)
    (rest : List Char) :
    readArguments (arguments.flatMap FieldType.chars ++ ')' :: rest) = (arguments, .ok rest) := by
  rw [readArguments_types h, readArguments_close, List.append_nil]

theorem chars_of_readArguments {arguments : List FieldType}
    (h : readArguments cs = (arguments, .ok rest)) :
    (∀ t ∈ arguments, t.Legal) ∧ cs = arguments.flatMap FieldType.chars ++ ')' :: rest := by
  induction cs using readArguments_induction generalizing arguments with
  | nil =>
    rw [readArguments] at h
    cases h
  | close after =>
    rw [readArguments_close] at h
    cases h
    exact ⟨by simp, rfl⟩
  | fail c tail e hc hread =>
    rw [readArguments_fail hc hread] at h
    cases h
  | type c tail t left hc hread ih =>
    rw [readArguments_type hc hread] at h
    obtain ⟨rfl, hmore⟩ := Prod.mk.inj h
    obtain ⟨ht, hcs⟩ := chars_of_readFieldType hread
    obtain ⟨hlegal, hleft⟩ := ih (Prod.ext rfl hmore)
    refine ⟨List.forall_mem_cons.2 ⟨ht, hlegal⟩, ?_⟩
    rw [List.flatMap_cons, List.append_assoc, ← hleft]
    exact hcs

end Arguments

theorem readLast_eq_ok {t : FieldType} (h : t.Legal) : readLast t.chars = ⟨[t], .ok t⟩ := by
  have hread := readFieldType_append h []
  rw [List.append_nil] at hread
  rw [readLast, hread]

theorem readResult_eq_ok {result : Option FieldType} (h : ∀ t ∈ result, t.Legal) :
    readResult (resultChars result) = ⟨result.toList, .ok result⟩ := by
  cases result with
  | none => rfl
  | some t =>
    obtain ⟨c, cs, hcs, -, -, hc⟩ := t.chars_eq_cons (h t rfl)
    have hvoid : t.chars ≠ ['V'] := by
      rw [hcs]
      exact fun heq => hc (List.cons.inj heq).1
    rw [resultChars, readResult, if_neg hvoid, readLast_eq_ok (h t rfl)]
    rfl

theorem chars_of_readResult {result : Option FieldType}
    (h : (readResult cs).outcome = .ok result) :
    (∀ t ∈ result, t.Legal) ∧ cs = resultChars result := by
  rw [readResult] at h
  split at h
  · next hvoid =>
    cases h
    exact ⟨by simp, hvoid⟩
  · obtain ⟨t, ht, heq⟩ := except_map_eq_ok.1 h
    obtain ⟨hlegal, hcs⟩ := chars_of_readLast ht
    subst heq
    refine ⟨fun u hu => ?_, hcs⟩
    obtain rfl := Option.some.inj hu
    exact hlegal

theorem MethodType.forall_types {m : MethodType} {p : FieldType → Prop} :
    (∀ t ∈ m.types, p t) ↔ (∀ t ∈ m.arguments, p t) ∧ ∀ t ∈ m.result, p t := by
  simp only [MethodType.types, List.mem_append, Option.mem_toList]
  constructor
  · exact fun h => ⟨fun t ht => h t (.inl ht), fun t ht => h t (.inr ht)⟩
  · rintro ⟨harguments, hresult⟩ t (ht | ht)
    · exact harguments t ht
    · exact hresult t ht

theorem readMethod_eq_ok {m : MethodType} (h : ∀ t ∈ m.types, t.Legal) :
    readMethod m.tailChars = ⟨m.types, .ok m⟩ := by
  obtain ⟨harguments, hresult⟩ := MethodType.forall_types.1 h
  rw [MethodType.tailChars, readMethod, readArguments_append harguments]
  dsimp only
  rw [readResult_eq_ok hresult]
  rfl

theorem chars_of_readMethod {m : MethodType} (h : (readMethod cs).outcome = .ok m) :
    (∀ t ∈ m.types, t.Legal) ∧ cs = m.tailChars := by
  rw [readMethod] at h
  split at h
  · cases h
  · next arguments rest hread =>
    obtain ⟨result, hlast, heq⟩ := except_map_eq_ok.1 h
    obtain ⟨harguments, hcs⟩ := chars_of_readArguments hread
    obtain ⟨hresult, hrest⟩ := chars_of_readResult hlast
    subst heq
    exact ⟨MethodType.forall_types.2 ⟨harguments, hresult⟩, by rw [hcs, hrest]; rfl⟩

theorem Descriptor.legal_field {t : FieldType} : (Descriptor.field t).Legal ↔ t.Legal :=
  List.forall_mem_singleton

theorem readDescriptor_chars {d : Descriptor} (h : d.Legal) :
    readDescriptor d.chars = ⟨d.types, .ok d⟩ := by
  cases d with
  | field t =>
    have ht := Descriptor.legal_field.1 h
    obtain ⟨c, cs, hcs, hc, -, -⟩ := t.chars_eq_cons ht
    rw [Descriptor.chars, hcs, readDescriptor, if_neg hc, ← hcs, readLast_eq_ok ht]
    rfl
  | method m =>
    rw [Descriptor.chars, MethodType.chars, readDescriptor, if_pos rfl, ← MethodType.tailChars,
      readMethod_eq_ok h]
    rfl

theorem readDescriptor_eq_ok_iff {d : Descriptor} :
    (readDescriptor cs).outcome = .ok d ↔ d.Legal ∧ cs = d.chars := by
  constructor
  · intro h
    unfold readDescriptor at h
    split at h
    · cases h
    · next c tail =>
      split at h
      · next hc =>
        obtain ⟨m, hm, rfl⟩ := except_map_eq_ok.1 h
        obtain ⟨hlegal, htail⟩ := chars_of_readMethod hm
        exact ⟨hlegal, by rw [hc, htail]; rfl⟩
      · obtain ⟨t, ht, rfl⟩ := except_map_eq_ok.1 h
        obtain ⟨hlegal, hcs⟩ := chars_of_readLast ht
        exact ⟨Descriptor.legal_field.2 hlegal, hcs⟩
  · rintro ⟨hlegal, rfl⟩
    rw [readDescriptor_chars hlegal]

namespace Descriptor

theorem parse_eq_ok_iff {d : String} {t : Descriptor} :
    parse d = .ok t ↔ t.Legal ∧ t.render = d := by
  have hrender : t.render = d ↔ d.toList = t.chars := by
    constructor
    · rintro rfl
      rw [render, String.toList_ofList]
    · intro h
      rw [render, ← h, String.ofList_toList]
  rw [hrender, ← readDescriptor_eq_ok_iff, parse]
  split
  · next hnil =>
    rw [hnil]
    simp [readDescriptor]
  · exact except_mapError_eq_ok

theorem validate_eq_ok_iff {d : String} :
    validate d = .ok () ↔ ∃ t : Descriptor, t.Legal ∧ t.render = d := by
  rw [validate_eq, except_map_eq_ok]
  simp only [parse_eq_ok_iff, and_true]

theorem visitedNames_render {t : Descriptor} (h : t.Legal) :
    visitedNames t.render = t.classNames := by
  rw [visitedNames, rewriting_calls, render, String.toList_ofList, readDescriptor_chars h,
    classNames]

theorem types_mapNames (f : String → String) (t : Descriptor) :
    (t.mapNames f).types = t.types.map (FieldType.mapNames f) := by
  cases t with
  | field t => rfl
  | method m =>
    obtain ⟨arguments, result⟩ := m
    cases result <;> simp [mapNames, types, MethodType.mapNames, MethodType.types]

theorem classNames_mapNames (f : String → String) (t : Descriptor) :
    (t.mapNames f).classNames = t.classNames.map f := by
  have hname : FieldType.className? ∘ FieldType.mapNames f = fun u => u.className?.map f := by
    funext ⟨dimensions, base⟩
    cases base <;> rfl
  rw [classNames, classNames, types_mapNames, List.filterMap_map, List.map_filterMap, hname]

theorem legal_iff {t : Descriptor} : t.Legal ↔ ∀ n ∈ t.classNames, LegalClassName n := by
  have hone : ∀ u : FieldType, u.Legal ↔ ∀ n, u.className? = some n → LegalClassName n := by
    rintro ⟨dimensions, base⟩
    cases base <;> simp [FieldType.Legal, BaseType.Legal, FieldType.className?,
      BaseType.className?]
  simp only [Legal, classNames, List.mem_filterMap, hone]
  constructor
  · rintro h n ⟨u, hu, hn⟩
    exact h u hu n hn
  · intro h u hu n hn
    exact h n ⟨u, hu, hn⟩

theorem legal_mapNames {f : String → String} {t : Descriptor} :
    (t.mapNames f).Legal ↔ ∀ n ∈ t.classNames, LegalClassName (f n) := by
  rw [legal_iff, classNames_mapNames]
  exact List.forall_mem_map

theorem mapNames_mapNames (f g : String → String) (t : Descriptor) :
    (t.mapNames f).mapNames g = t.mapNames (g ∘ f) := by
  have hone : ∀ u : FieldType, (u.mapNames f).mapNames g = u.mapNames (g ∘ f) := by
    rintro ⟨dimensions, base⟩
    cases base <;> rfl
  cases t with
  | field t => exact congrArg field (hone t)
  | method m =>
    obtain ⟨arguments, result⟩ := m
    simp [mapNames, MethodType.mapNames, Function.comp_def, hone]

theorem mapNames_id (t : Descriptor) : t.mapNames id = t := by
  have hone : ∀ u : FieldType, u.mapNames id = u := by
    rintro ⟨dimensions, base⟩
    cases base <;> rfl
  cases t with
  | field t => exact congrArg field (hone t)
  | method m =>
    obtain ⟨arguments, result⟩ := m
    simp [mapNames, MethodType.mapNames, hone]

theorem isMethod_render {t : Descriptor} (h : t.Legal) :
    isMethod t.render = true ↔ ∃ m, t = .method m := by
  rw [isMethod, render, String.toList_ofList]
  cases t with
  | field t =>
    have hparen := paren_notMem_chars (legal_field.1 h) (.inl rfl)
    simp only [reduceCtorEq, exists_false, iff_false, beq_iff_eq]
    intro hhead
    exact hparen (List.mem_of_head? hhead)
  | method m => simp [chars, MethodType.chars]

/-- Renaming classes does not make a method of a field or a field of a method. -/
theorem isMethod_mapNames {f : String → String} {t : Descriptor} (h : t.Legal)
    (hf : (t.mapNames f).Legal) :
    isMethod (t.mapNames f).render = isMethod t.render := by
  rw [Bool.eq_iff_iff, isMethod_render h, isMethod_render hf]
  cases t with
  | field t => simp [mapNames]
  | method m => simp [mapNames]

theorem mapClassNames_eq_ok_iff {f : String → String} {d out : String} :
    mapClassNames f d = .ok out ↔
      ∃ t : Descriptor, t.Legal ∧ t.render = d ∧ (t.mapNames f).render = out := by
  rw [mapClassNames_eq, except_map_eq_ok]
  simp only [parse_eq_ok_iff, and_assoc]

theorem mapClassNames_render {t : Descriptor} (h : t.Legal) (f : String → String) :
    mapClassNames f t.render = .ok (t.mapNames f).render :=
  mapClassNames_eq_ok_iff.2 ⟨t, h, rfl, rfl⟩

theorem mapNames_congr {f g : String → String} {t : Descriptor}
    (h : ∀ n ∈ t.classNames, f n = g n) : t.mapNames f = t.mapNames g := by
  have hone : ∀ u ∈ t.types, u.mapNames f = u.mapNames g := by
    rintro ⟨dimensions, base⟩ hu
    cases base with
    | primitive p => rfl
    | reference name =>
      have heq := h name (List.mem_filterMap.2 ⟨_, hu, rfl⟩)
      simp only [FieldType.mapNames, BaseType.mapNames, heq]
  cases t with
  | field u => exact congrArg field (hone u (List.mem_singleton_self u))
  | method m =>
    obtain ⟨harguments, hresult⟩ := MethodType.forall_types.1 hone
    rw [mapNames, mapNames, MethodType.mapNames, MethodType.mapNames,
      List.map_congr_left harguments, Option.map_congr hresult]

/-- Only what becomes of the names that are met matters. -/
theorem mapClassNames_congr {f g : String → String} {d : String}
    (h : ∀ n ∈ visitedNames d, f n = g n) : mapClassNames f d = mapClassNames g d := by
  cases hp : parse d with
  | error e => rw [mapClassNames_eq, mapClassNames_eq, hp]; rfl
  | ok t =>
    obtain ⟨hlegal, rfl⟩ := parse_eq_ok_iff.1 hp
    rw [visitedNames_render hlegal] at h
    rw [mapClassNames_render hlegal, mapClassNames_render hlegal, mapNames_congr h]

/-- A second rewriting sees the names that the first one has written, as long as they are names. -/
theorem mapClassNames_bind {f : String → String} {d : String}
    (h : ∀ n ∈ visitedNames d, LegalClassName (f n)) (g : String → String) :
    (mapClassNames f d).bind (mapClassNames g) = mapClassNames (g ∘ f) d := by
  cases hp : parse d with
  | error e => simp [mapClassNames_eq, hp, Except.map, Except.bind]
  | ok t =>
    obtain ⟨hlegal, rfl⟩ := parse_eq_ok_iff.1 hp
    rw [visitedNames_render hlegal, ← legal_mapNames] at h
    rw [mapClassNames_render hlegal, mapClassNames_render hlegal, ← mapNames_mapNames]
    exact mapClassNames_render h g

/-- A text is rewritten exactly if it is the rendering of a legal tree, which is then the only one,
and what comes out is that tree with other names. The names that are passed on are those of the tree
from left to right, and the results take their places. So nothing changes under the identity, and
two rewritings in a row are one. -/
theorem mapClassNames_exact (d : String) :
    (∀ f out, mapClassNames f d = .ok out ↔
        ∃ t : Descriptor, t.Legal ∧ t.render = d ∧ (t.mapNames f).render = out) ∧
      (∀ t u : Descriptor, t.Legal → u.Legal → t.render = d → u.render = d → t = u) ∧
      (∀ t : Descriptor, t.Legal → t.render = d → visitedNames d = t.classNames ∧
        ∀ f, (rewriting f d).calls = t.classNames ∧
          (t.mapNames f).classNames = (visitedNames d).map f) ∧
      (∀ t : Descriptor, t.Legal → t.render = d → mapClassNames id d = .ok d) ∧
      ∀ f, (∀ n ∈ visitedNames d, LegalClassName (f n)) →
        (∀ out, mapClassNames f d = .ok out → ∃ u : Descriptor, u.Legal ∧ u.render = out) ∧
          ∀ g, (mapClassNames f d).bind (mapClassNames g) = mapClassNames (g ∘ f) d := by
  refine ⟨fun f out => mapClassNames_eq_ok_iff, ?_, ?_, ?_, ?_⟩
  · intro t u ht hu htd hud
    have htp : parse d = .ok t := parse_eq_ok_iff.2 ⟨ht, htd⟩
    have hup : parse d = .ok u := parse_eq_ok_iff.2 ⟨hu, hud⟩
    rw [htp] at hup
    exact Except.ok.inj hup
  · rintro t ht rfl
    have hvisited := visitedNames_render ht
    refine ⟨hvisited, fun f => ⟨(rewriting_calls_eq f _).trans hvisited, ?_⟩⟩
    rw [hvisited, classNames_mapNames]
  · rintro t ht rfl
    rw [mapClassNames_render ht, mapNames_id]
  · intro f hf
    refine ⟨fun out hout => ?_, mapClassNames_bind hf⟩
    obtain ⟨t, ht, rfl, rfl⟩ := mapClassNames_eq_ok_iff.1 hout
    rw [visitedNames_render ht] at hf
    exact ⟨t.mapNames f, legal_mapNames.2 hf, rfl⟩

end Descriptor

end MixinNaming
