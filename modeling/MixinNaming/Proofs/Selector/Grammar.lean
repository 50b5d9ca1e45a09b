import MixinNaming.Proofs.Descriptor.FieldReading
import MixinNaming.Proofs.Outcome
import MixinNaming.Selector.Resolution
/-! The grammar of selectors. A text is a selector exactly if, without its white space, it is the
rendering of parts that are legal in their places, and these parts are then the only ones. -/
namespace MixinNaming.Selector

def LegalOwner (owner : String) : Prop :=
  owner.toList ≠ [] ∧ ∀ c ∈ owner.toList, c ∉ [';', ':', '.', '[', '(', ')']

def LegalName (name : String) : Prop :=
  name.toList ≠ [] ∧ ∀ c ∈ name.toList, c ∉ [';', ':', '(', ')', '[', '/']

def LegalDesc (desc : String) : Prop :=
  Descriptor.validate desc = .ok () ∧ (Descriptor.isMethod desc = true → ':' ∉ desc.toList)

structure Legal (s : Selector) : Prop where
  owner : ∀ owner ∈ s.owner, LegalOwner owner
  name : ∀ name ∈ s.name, LegalName name
  desc : ∀ desc ∈ s.desc, LegalDesc desc

structure WellFormed (s : Selector) : Prop extends s.Legal where
  spaceless : ∀ part ∈ s.owner.toList ++ s.name.toList ++ s.desc.toList,
    ∀ c ∈ part.toList, Text.isWhiteSpace c = false

/-- How the first colon or the first parenthesis cuts a text. -/
inductive Halved : List Char → Halves → Prop where
  | bare {cs} : ':' ∉ cs → '(' ∉ cs → Halved cs ⟨cs, none⟩
  | field {head desc} : ':' ∉ head → '(' ∉ head → '(' ∉ desc →
      Halved (head ++ ':' :: desc) ⟨head, some desc⟩
  | method {head rest} : ':' ∉ head → '(' ∉ head → ':' ∉ rest →
      Halved (head ++ '(' :: rest) ⟨head, some ('(' :: rest)⟩

theorem halved_of_halves {cs : List Char} {p : Halves} (h : halves cs = .ok p) : Halved cs p := by
  rw [halves] at h
  split at h
  · cases h
  · rename_i head desc hc hp
    obtain rfl := Except.ok.inj h
    obtain ⟨rfl, hhead⟩ := Text.splitOnce_eq_some.1 hc
    have hparen := Text.splitOnce_eq_none.1 hp
    simp only [List.mem_append, List.mem_cons, not_or] at hparen
    exact .field hhead hparen.1 hparen.2.2
  · rename_i head rest hc hp
    obtain rfl := Except.ok.inj h
    obtain ⟨rfl, hhead⟩ := Text.splitOnce_eq_some.1 hp
    have hcolon := Text.splitOnce_eq_none.1 hc
    simp only [List.mem_append, List.mem_cons, not_or] at hcolon
    exact .method hcolon.1 hhead hcolon.2.2
  · rename_i hc hp
    obtain rfl := Except.ok.inj h
    exact .bare (Text.splitOnce_eq_none.1 hc) (Text.splitOnce_eq_none.1 hp)

theorem halves_of_halved {cs : List Char} {p : Halves} (h : Halved cs p) : halves cs = .ok p := by
  cases h with
  | bare hc hp =>
    rw [halves, Text.splitOnce_eq_none.2 hc, Text.splitOnce_eq_none.2 hp]
  | @field head desc hc hp hd =>
    have hcolon : Text.splitOnce ':' (head ++ ':' :: desc) = some (head, desc) :=
      Text.splitOnce_eq_some.2 ⟨rfl, hc⟩
    have hparen : Text.splitOnce '(' (head ++ ':' :: desc) = none :=
      Text.splitOnce_eq_none.2 (by simp [hp, hd])
    rw [halves, hcolon, hparen]
  | @method head rest hc hp hr =>
    have hcolon : Text.splitOnce ':' (head ++ '(' :: rest) = none :=
      Text.splitOnce_eq_none.2 (by simp [hc, hr])
    have hparen : Text.splitOnce '(' (head ++ '(' :: rest) = some (head, rest) :=
      Text.splitOnce_eq_some.2 ⟨rfl, hp⟩
    rw [halves, hcolon, hparen]

def readHead (purged head : List Char) : Except Violation (Option String × List Char) :=
  match Text.splitOnce ';' head with
  | some (owner, name) => (readOwner purged owner).map fun o => (some o, name)
  | none => .ok (none, head)

theorem parseChars_eq (cs : List Char) :
    parseChars cs = (halves cs).bind fun parts => (readHead cs parts.head).bind fun head =>
      (readName cs head.2).bind fun name => (readDesc cs parts.desc).bind fun desc =>
        .ok ⟨head.1, name, desc⟩ := by
  unfold parseChars readHead
  cases halves cs with
  | error v => rfl
  | ok parts =>
    simp only [Except.bind]
    cases hs : Text.splitOnce ';' parts.head with
    | none => simp only [bind, Except.bind, pure, Except.pure, hs]
    | some split =>
      cases ho : readOwner cs split.1 with
      | error v => simp only [bind, Except.bind, Except.map, hs, ho]
      | ok owner => simp only [bind, Except.bind, pure, Except.pure, Except.map, hs, ho]

theorem parseChars_eq_ok {cs : List Char} {s : Selector} :
    parseChars cs = .ok s ↔ ∃ parts written, halves cs = .ok parts ∧
      readHead cs parts.head = .ok (s.owner, written) ∧ readName cs written = .ok s.name ∧
      readDesc cs parts.desc = .ok s.desc := by
  obtain ⟨owner, name, desc⟩ := s
  rw [parseChars_eq]
  simp only [except_bind_eq_ok, Except.ok.injEq, Selector.mk.injEq]
  constructor
  · rintro ⟨parts, hp, head, hh, n, hn, d, hd, rfl, rfl, rfl⟩
    exact ⟨parts, head.2, hp, hh, hn, hd⟩
  · rintro ⟨parts, written, hp, hh, hn, hd⟩
    exact ⟨parts, hp, (owner, written), hh, name, hn, desc, hd, rfl, rfl, rfl⟩

theorem readOwner_eq_ok {purged written : List Char} {owner : String} :
    readOwner purged written = .ok owner ↔
      written = 'L' :: owner.toList ∧ owner.toList ≠ [] ∧ owner.toList.all isOwnerChar = true := by
  unfold readOwner
  split
  · rename_i c rest
    split
    · rename_i hall
      rw [Except.ok.injEq]
      constructor
      · rintro rfl
        simpa using hall
      · rintro ⟨hw, -, -⟩
        rw [List.cons.inj hw |>.2, String.ofList_toList]
    · rename_i hall
      simp only [reduceCtorEq, false_iff, not_and, List.cons.injEq, true_and]
      rintro hw -
      rw [← hw]
      exact hall
  · rename_i hne
    simp only [reduceCtorEq, false_iff, not_and]
    rintro rfl hnil -
    obtain ⟨c, rest, hcs⟩ := List.exists_cons_of_ne_nil hnil
    exact hne c rest (by rw [hcs])

theorem head_of_readHead {purged head written : List Char} {owner : Option String}
    (h : readHead purged head = .ok (owner, written)) :
    head = ownerChars owner ++ written ∧ ∀ o ∈ owner,
      o.toList ≠ [] ∧ ';' ∉ o.toList ∧ o.toList.all isOwnerChar = true := by
  rw [readHead] at h
  split at h
  · rename_i before name hs
    obtain ⟨hhead, hsemi⟩ := Text.splitOnce_eq_some.1 hs
    obtain ⟨o, ho, heq⟩ := except_map_eq_ok.1 h
    obtain ⟨rfl, rfl⟩ := Prod.mk.inj heq
    obtain ⟨rfl, hne, hall⟩ := readOwner_eq_ok.1 ho
    refine ⟨by simpa [ownerChars] using hhead, fun p hp => ?_⟩
    obtain rfl := Option.some.inj hp
    exact ⟨hne, fun hm => hsemi (List.mem_cons_of_mem _ hm), hall⟩
  · obtain ⟨rfl, rfl⟩ := Prod.mk.inj (Except.ok.inj h)
    exact ⟨rfl, by simp⟩

theorem readHead_ownerChars {owner : Option String} (h : ∀ o ∈ owner, LegalOwner o)
    {written : List Char} (hw : ';' ∉ written) (purged : List Char) :
    readHead purged (ownerChars owner ++ written) = .ok (owner, written) := by
  cases owner with
  | none =>
    rw [readHead, ownerChars, List.nil_append, Text.splitOnce_eq_none.2 hw]
  | some o =>
    obtain ⟨hne, hall⟩ := h o rfl
    have hsplit : Text.splitOnce ';' (ownerChars (some o) ++ written) =
        some ('L' :: o.toList, written) := by
      refine Text.splitOnce_eq_some.2 ⟨by simp [ownerChars], fun hm => ?_⟩
      rcases List.mem_cons.1 hm with hm | hm
      · revert hm
        decide
      · exact hall ';' hm (by simp)
    have howner : readOwner purged ('L' :: o.toList) = .ok o := by
      refine readOwner_eq_ok.2 ⟨rfl, hne, List.all_eq_true.2 fun c hc => ?_⟩
      have hchar := hall c hc
      simp only [List.mem_cons, List.not_mem_nil, or_false, not_or] at hchar
      simp [isOwnerChar, hchar]
    rw [readHead, hsplit]
    simp only [howner]
    rfl

theorem readName_eq_ok {purged written : List Char} {name : Option String} :
    readName purged written = .ok name ↔
      written = nameChars name ∧ written.all isMemberNameChar = true ∧
        ∀ n ∈ name, n.toList ≠ [] := by
  rw [readName]
  split
  · rename_i hall
    rw [Except.ok.injEq]
    constructor
    · rintro rfl
      split
      · rename_i hnil
        exact ⟨hnil, hall, by simp⟩
      · rename_i hne
        exact ⟨by simp [nameChars], hall, by simpa using hne⟩
    · rintro ⟨rfl, -, hne⟩
      cases name with
      | none => rfl
      | some n => simp [nameChars, hne n rfl]
  · rename_i hall
    simp only [reduceCtorEq, false_iff, not_and]
    intro _ hall'
    exact absurd hall' hall

theorem readDesc_eq_ok {purged : List Char} {written : Option (List Char)}
    {desc : Option String} :
    readDesc purged written = .ok desc ↔
      written = desc.map String.toList ∧ ∀ d ∈ desc, Descriptor.validate d = .ok () := by
  unfold readDesc
  split
  · cases desc with
    | none => simp
    | some d => simp
  · simp only [reduceCtorEq, false_iff, not_and]
    intro hw hvalid
    obtain ⟨d, rfl, hd⟩ := Option.map_eq_some_iff.1 hw.symm
    have hempty : d = "" := String.toList_eq_nil_iff.1 hd
    have hok := hvalid d rfl
    rw [hempty] at hok
    cases hok
  · rename_i cs _
    split
    · rename_i hvalid
      rw [Except.ok.injEq]
      constructor
      · rintro rfl
        exact ⟨by simp, by simpa using hvalid⟩
      · rintro ⟨hw, -⟩
        obtain ⟨d, rfl, hd⟩ := Option.map_eq_some_iff.1 hw.symm
        rw [← hd, String.ofList_toList]
    · rename_i hvalid
      simp only [reduceCtorEq, false_iff, not_and]
      intro hw hok
      obtain ⟨d, rfl, hd⟩ := Option.map_eq_some_iff.1 hw.symm
      rw [← hd, String.ofList_toList, hok d rfl] at hvalid
      cases hvalid

theorem legalOwner_of_read {owner : String} (hne : owner.toList ≠ []) (hsemi : ';' ∉ owner.toList)
    (hcolon : ':' ∉ owner.toList) (hall : owner.toList.all isOwnerChar = true) :
    LegalOwner owner := by
  refine ⟨hne, fun c hc hm => ?_⟩
  have hchar := List.all_eq_true.1 hall c hc
  simp only [List.mem_cons, List.not_mem_nil, or_false] at hm
  rcases hm with rfl | rfl | rfl | rfl | rfl | rfl
  · exact hsemi hc
  · exact hcolon hc
  all_goals cases hchar

theorem legalName_of_read {name : String} (hne : name.toList ≠ []) (hcolon : ':' ∉ name.toList)
    (hall : name.toList.all isMemberNameChar = true) : LegalName name := by
  refine ⟨hne, fun c hc hm => ?_⟩
  have hchar := List.all_eq_true.1 hall c hc
  simp only [List.mem_cons, List.not_mem_nil, or_false] at hm
  rcases hm with rfl | rfl | rfl | rfl | rfl | rfl
  · cases hchar
  · exact hcolon hc
  all_goals cases hchar

/-- A descriptor takes its place after a head as the cut has left it. -/
theorem descChars_of_halved {cs head : List Char} {desc : Option String}
    (h : Halved cs ⟨head, desc.map String.toList⟩)
    (hvalid : ∀ d ∈ desc, Descriptor.validate d = .ok ()) :
    ':' ∉ head ∧ cs = head ++ descChars desc ∧ ∀ d ∈ desc, LegalDesc d := by
  cases desc with
  | none =>
    cases h with
    | bare hc _ => exact ⟨hc, by simp [descChars], by simp⟩
  | some d =>
    have hd := hvalid d rfl
    rw [Option.map_some] at h
    generalize hcs : d.toList = written at h
    cases h with
    | field hc _ hparen =>
      have hm : Descriptor.isMethod d = false := by
        rw [Descriptor.isMethod, hcs]
        cases written with
        | nil => rfl
        | cons c rest =>
          have hne : c ≠ '(' := fun heq => hparen (heq ▸ List.mem_cons_self)
          simp [hne]
      refine ⟨hc, by simp [descChars, hm, hcs], fun e he => ?_⟩
      obtain rfl := Option.some.inj he
      exact ⟨hd, fun htrue => absurd (hm.symm.trans htrue) (by decide)⟩
    | @method head rest hc _ hcolon =>
      have hm : Descriptor.isMethod d = true := by
        rw [Descriptor.isMethod, hcs]
        rfl
      refine ⟨hc, by simp [descChars, hm, hcs], fun e he => ?_⟩
      obtain rfl := Option.some.inj he
      refine ⟨hd, fun _ hmem => ?_⟩
      rw [hcs] at hmem
      rcases List.mem_cons.1 hmem with hmem | hmem
      · revert hmem
        decide
      · exact hcolon hmem

theorem chars_of_parseChars {cs : List Char} {s : Selector} (h : parseChars cs = .ok s) :
    cs = s.chars ∧ s.Legal := by
  obtain ⟨⟨head, desc⟩, written, hp, hh, hn, hd⟩ := parseChars_eq_ok.1 h
  obtain ⟨hhead, howner⟩ := head_of_readHead hh
  obtain ⟨rfl, hall, hne⟩ := readName_eq_ok.1 hn
  obtain ⟨rfl, hvalid⟩ := readDesc_eq_ok.1 hd
  obtain ⟨hcolon, hcs, hdesc⟩ := descChars_of_halved (halved_of_halves hp) hvalid
  dsimp only at hhead
  rw [hhead, List.mem_append, not_or] at hcolon
  refine ⟨by rw [hcs, hhead, chars], ?_, ?_, hdesc⟩
  · intro o ho
    obtain ⟨hone, hsemi, hoall⟩ := howner o ho
    refine legalOwner_of_read hone hsemi (fun hm => hcolon.1 ?_) hoall
    rw [ho]
    simp [ownerChars, hm]
  · intro n hn
    refine legalName_of_read (hne n hn) (fun hm => hcolon.2 ?_) ?_
    · rw [hn]
      exact hm
    · rw [hn] at hall
      exact hall

theorem notMem_ownerChars {owner : Option String} (h : ∀ o ∈ owner, LegalOwner o) :
    ':' ∉ ownerChars owner ∧ '(' ∉ ownerChars owner := by
  cases owner with
  | none => simp [ownerChars]
  | some o =>
    obtain ⟨-, hall⟩ := h o rfl
    have hcolon : ':' ∉ o.toList := fun hm => hall ':' hm (by simp)
    have hparen : '(' ∉ o.toList := fun hm => hall '(' hm (by simp)
    simp [ownerChars, hcolon, hparen]

theorem notMem_nameChars {name : Option String} (h : ∀ n ∈ name, LegalName n) :
    ':' ∉ nameChars name ∧ '(' ∉ nameChars name ∧ ';' ∉ nameChars name := by
  cases name with
  | none => simp [nameChars]
  | some n =>
    obtain ⟨-, hall⟩ := h n rfl
    exact ⟨fun hm => hall ':' hm (by simp), fun hm => hall '(' hm (by simp),
      fun hm => hall ';' hm (by simp)⟩

theorem halved_descChars {head : List Char} {desc : Option String} (hcolon : ':' ∉ head)
    (hparen : '(' ∉ head) (h : ∀ d ∈ desc, LegalDesc d) :
    Halved (head ++ descChars desc) ⟨head, desc.map String.toList⟩ := by
  cases desc with
  | none =>
    rw [descChars, List.append_nil]
    exact .bare hcolon hparen
  | some d =>
    obtain ⟨hvalid, hnone⟩ := h d rfl
    cases hm : Descriptor.isMethod d with
    | false =>
      have hd := paren_notMem_of_validate hvalid hm
      simp only [descChars, hm, Option.map_some]
      exact .field hcolon hparen hd
    | true =>
      have hd := hnone hm
      simp only [descChars, hm, Option.map_some, if_true]
      rw [Descriptor.isMethod] at hm
      generalize d.toList = cs at hm hd ⊢
      cases cs with
      | nil => cases hm
      | cons c rest =>
        obtain rfl : c = '(' := by simpa using hm
        exact .method hcolon hparen fun hr => hd (List.mem_cons_of_mem _ hr)

theorem parseChars_chars {s : Selector} (h : s.Legal) : parseChars s.chars = .ok s := by
  obtain ⟨hocolon, hoparen⟩ := notMem_ownerChars h.owner
  obtain ⟨hncolon, hnparen, hsemi⟩ := notMem_nameChars h.name
  have hhalved : Halved s.chars ⟨ownerChars s.owner ++ nameChars s.name,
      s.desc.map String.toList⟩ :=
    halved_descChars (by simp [hocolon, hncolon]) (by simp [hoparen, hnparen]) h.desc
  refine parseChars_eq_ok.2 ⟨_, nameChars s.name, halves_of_halved hhalved,
    readHead_ownerChars h.owner hsemi _, readName_eq_ok.2 ⟨rfl, ?_, fun n hn => (h.name n hn).1⟩,
    readDesc_eq_ok.2 ⟨rfl, fun d hd => (h.desc d hd).1⟩⟩
  refine List.all_eq_true.2 fun c hc => ?_
  cases hn : s.name with
  | none =>
    rw [hn] at hc
    cases hc
  | some n =>
    rw [hn] at hc
    have hchar := (h.name n hn).2 c hc
    simp only [List.mem_cons, List.not_mem_nil, or_false, not_or] at hchar
    simp [isMemberNameChar, hchar]

theorem parseChars_eq_ok_iff {cs : List Char} {s : Selector} :
    parseChars cs = .ok s ↔ cs = s.chars ∧ s.Legal := by
  constructor
  · exact chars_of_parseChars
  · rintro ⟨rfl, h⟩
    exact parseChars_chars h

/-- The letters that a rendering adds to its parts are not white space. -/
theorem wellFormed_iff {s : Selector} :
    s.WellFormed ↔ s.Legal ∧ ∀ c ∈ s.chars, Text.isWhiteSpace c = false := by
  obtain ⟨owner, name, desc⟩ := s
  constructor
  · intro h
    refine ⟨h.toLegal, fun c hc => ?_⟩
    have hpart := h.spaceless
    rcases List.mem_append.1 hc with hc | hc
    · rcases List.mem_append.1 hc with hc | hc
      · cases owner with
        | none => cases hc
        | some o =>
          simp only [ownerChars, List.mem_cons, List.mem_append, List.not_mem_nil, or_false] at hc
          rcases hc with rfl | hc | rfl
          · decide
          · exact hpart o (by simp) c hc
          · decide
      · cases name with
        | none => cases hc
        | some n => exact hpart n (by simp) c hc
    · cases desc with
      | none => cases hc
      | some d =>
        have hd := hpart d (by simp) c
        rw [descChars] at hc
        split at hc
        · exact hd hc
        · rcases List.mem_cons.1 hc with rfl | hc
          · decide
          · exact hd hc
  · rintro ⟨hlegal, hchars⟩
    refine ⟨hlegal, fun part hp c hc => hchars c ?_⟩
    simp only [List.mem_append, Option.mem_toList] at hp
    rcases hp with (rfl | rfl) | rfl
    · simp [chars, ownerChars, hc]
    · simp [chars, nameChars, hc]
    · refine List.mem_append_right _ ?_
      rw [descChars]
      split
      · exact hc
      · exact List.mem_cons_of_mem _ hc

theorem parse_eq_ok_iff {text : String} {s : Selector} :
    parse text = .ok s ↔ Text.withoutWhiteSpace text.toList = s.chars ∧ s.WellFormed := by
  rw [parse, parseChars_eq_ok_iff, wellFormed_iff]
  constructor
  · rintro ⟨hchars, hlegal⟩
    refine ⟨hchars, hlegal, fun c hc => ?_⟩
    rw [← hchars] at hc
    exact (Text.mem_withoutWhiteSpace.1 hc).2
  · rintro ⟨hchars, hlegal, -⟩
    exact ⟨hchars, hlegal⟩

theorem parse_render {s : Selector} (h : s.WellFormed) : parse s.render = .ok s := by
  rw [parse_eq_ok_iff, render, String.toList_ofList]
  refine ⟨?_, h⟩
  rw [Text.withoutWhiteSpace, List.filter_eq_self]
  intro c hc
  have hspace := (wellFormed_iff.1 h).2 c hc
  simp [hspace]

/-- A text is read as the one well-formed selector that it renders; any other text is illegal
wherever it is resolved. Printing a selector and reading it are inverse to each other, and white
space makes no difference. -/
theorem parse_exact (text : String) :
    (∀ s, parse text = .ok s ↔ Text.withoutWhiteSpace text.toList = s.chars ∧ s.WellFormed) ∧
      ((∀ s : Selector, s.WellFormed → Text.withoutWhiteSpace text.toList ≠ s.chars) →
        ∃ v, parse text = .error v ∧ ∀ (r : Remapper) location targets filter,
          r.resolveSelector location text targets filter = .stop (.illegal location v)) ∧
      (∀ s, parse text = .ok s → s.render = .ofList (Text.withoutWhiteSpace text.toList)) ∧
      (∀ s : Selector, s.WellFormed → parse s.render = .ok s) ∧
      ∀ other : String, Text.withoutWhiteSpace other.toList = Text.withoutWhiteSpace text.toList →
        parse other = parse text := by
  refine ⟨fun s => parse_eq_ok_iff, fun hnone => ?_, fun s hs => ?_, fun s => parse_render,
    fun other hother => ?_⟩
  · cases hp : parse text with
    | ok s =>
      obtain ⟨hchars, hwell⟩ := parse_eq_ok_iff.1 hp
      exact absurd hchars (hnone s hwell)
    | error v =>
      refine ⟨v, rfl, fun r location targets filter => ?_⟩
      rw [Remapper.resolveSelector, hp]
  · rw [render, (parse_eq_ok_iff.1 hs).1]
  · rw [parse, parse, hother]

end MixinNaming.Selector
