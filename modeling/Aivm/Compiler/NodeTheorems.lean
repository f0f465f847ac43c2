import Aivm.Compiler.TextNodes

/-!
# Node text parses back

What is read from a written node is the node: its kind, its attributes, its body with the children in order, and the
text from which its next sibling is read.
-/

namespace Aivm

variable {text rest inside trail : Text}

/-! ## Reading one node -/

/-- What may stand behind a node: nothing, or a blank and no brace behind the blanks. -/
structure FollowsNode (rest : Text) : Prop where
  blank : ∀ b r, rest = b :: r → isSpace b = true
  brace : ∀ b r, rest.dropWhile isSpace = b :: r → b ≠ openBrace

/-- The text behind the attributes starts with a blank or with the brace of the body. -/
theorem NodeHead.bodyPart_starts {h : NodeHead} (hwf : h.Wf) (hrest : FollowsNode rest) :
    ∀ b r, h.bodyPart inside ++ rest = b :: r → isSpace b = true ∨ b = openBrace := by
  intro b r heq
  unfold bodyPart at heq
  split_ifs at heq with hbraces
  · cases hgap : h.gap with
    | nil =>
        simp only [hgap, List.nil_append, List.cons_append, List.cons.injEq] at heq
        exact .inr heq.1.symm
    | cons c gap =>
        simp only [hgap, List.cons_append, List.cons.injEq] at heq
        exact .inl (heq.1 ▸ hwf.gap c (by simp [hgap]))
  · exact .inl (hrest.blank b r heq)

/-- The kind and the identifier are read up to what follows them. -/
theorem NodeHead.skipId {h : NodeHead} (hwf : h.Wf) (hrest : FollowsNode rest) :
    skipId (hash :: h.id ++ (h.attrsPart ++ (h.bodyPart inside ++ rest))) =
      h.attrsPart ++ (h.bodyPart inside ++ rest) := by
  rw [List.cons_append, Aivm.skipId, if_pos rfl]
  apply dropWhile_append_stop
  · intro b hb
    obtain ⟨hspace, hparen, -, hbrace, -⟩ := isNameByte_iff.1 (hwf.id b hb)
    simp [hspace, hparen, hbrace]
  · intro b r heq
    unfold attrsPart at heq
    split_ifs at heq with hparens
    · simp only [List.cons_append, List.cons.injEq] at heq
      simp [← heq.1]
    · rcases bodyPart_starts hwf hrest b r heq with hspace | hbrace
      · simp [hspace]
      · simp [hbrace]

theorem NodeHead.parseAttrs {h : NodeHead} (hwf : h.Wf) (hrest : FollowsNode rest) :
    parseAttrs (h.attrsPart ++ (h.bodyPart inside ++ rest)) =
      some (attrsText h.attrs, h.bodyPart inside ++ rest) := by
  unfold attrsPart
  split_ifs with hparens
  · have hlength := hwf.attrsLength
    rw [List.cons_append, List.cons_append, List.append_assoc, List.singleton_append, Aivm.parseAttrs, if_pos rfl,
      hwf.attrs.balanced.findMatching, Option.bind_eq_bind, Option.bind_some]
    exact if_neg (by omega)
  · have hnone : h.attrs = [] := by
      by_contra hne
      exact hparens (hwf.parens hne)
    rw [hnone, List.nil_append]
    cases htext : h.bodyPart inside ++ rest with
    | nil => rfl
    | cons b r =>
        have hparen : b ≠ openParen := by
          rcases bodyPart_starts hwf hrest b r htext with hspace | hbrace
          · exact (isSpace_not_bracket hspace).2.1
          · rw [hbrace]
            decide
        rw [Aivm.parseAttrs, if_neg hparen]
        rfl

theorem NodeHead.parseBody {h : NodeHead} (hwf : h.Wf) (hrest : FollowsNode rest)
    (hinside : Balanced openBrace closeBrace inside) :
    ∃ next, parseBody ((h.bodyPart inside ++ rest).dropWhile isSpace) = some (h.body inside, next) ∧
      next.dropWhile isSpace = rest.dropWhile isSpace := by
  unfold bodyPart body
  split_ifs with hbraces
  · have hbody : (h.gap ++ (openBrace :: (inside ++ h.trail) ++ [closeBrace]) ++ rest).dropWhile isSpace =
        openBrace :: (inside ++ h.trail ++ closeBrace :: rest) := by
      have hspace : isSpace openBrace = false := by decide
      rw [List.append_assoc, dropWhile_append_all hwf.gap]
      simp [hspace]
    rw [hbody, Aivm.parseBody, if_pos rfl, (hinside.append hwf.trail.balanced).findMatching]
    exact ⟨rest, rfl, rfl⟩
  · rw [List.nil_append]
    cases hnext : rest.dropWhile isSpace with
    | nil => exact ⟨[], rfl, rfl⟩
    | cons b r =>
        rw [Aivm.parseBody, if_neg (hrest.brace b r hnext)]
        refine ⟨b :: r, rfl, ?_⟩
        rw [← hnext]
        exact List.dropWhile_idempotent isSpace rest

/-- A written node is read back. -/
theorem NodeHead.parse {h : NodeHead} (hwf : h.Wf) (hrest : FollowsNode rest)
    (hinside : Balanced openBrace closeBrace inside) :
    ∃ next, parseNextNode (h.render inside ++ rest) = some ⟨h.kind, attrsText h.attrs, h.body inside, next⟩ ∧
      next.dropWhile isSpace = rest.dropWhile isSpace := by
  obtain ⟨next, hbody, hnext⟩ := parseBody hwf hrest hinside
  refine ⟨next, ?_, hnext⟩
  have hstart : (h.render inside ++ rest).dropWhile isSpace =
      h.kind ++ (hash :: h.id ++ (h.attrsPart ++ (h.bodyPart inside ++ rest))) := by
    simp only [render, List.append_assoc]
    apply dropWhile_append_stop hwf.lead
    intro b r heq
    cases hkind : h.kind with
    | nil => exact absurd hkind hwf.kind.1
    | cons c kind =>
        rw [hkind, List.cons_append, List.cons.injEq] at heq
        exact (isNameByte_iff.1 (hwf.kind.2 b (by simp [hkind, heq.1])).1).1
  have hkindBytes : ∀ b ∈ h.kind, isKindByte b = true := by
    intro b hb
    obtain ⟨hname, hhash⟩ := hwf.kind.2 b hb
    obtain ⟨hspace, hparen, -, hbrace, -⟩ := isNameByte_iff.1 hname
    simp [isKindByte, hspace, hparen, hbrace, hhash]
  have hstop : ∀ b r, hash :: h.id ++ (h.attrsPart ++ (h.bodyPart inside ++ rest)) = b :: r → isKindByte b = false := by
    intro b r heq
    simp only [List.cons_append, List.cons.injEq] at heq
    rw [← heq.1]
    decide
  have hkindLength : ¬ 32 < h.kind.length + 1 := by
    have := hwf.kindLength
    omega
  have hbehind : ¬ hash :: h.id ++ (h.attrsPart ++ (h.bodyPart inside ++ rest)) = [] := by simp
  rw [parseNextNode, hstart]
  simp only [takeWhile_append_stop hkindBytes hstop, dropWhile_append_stop hkindBytes hstop, hwf.kind.1, hbehind,
    hkindLength, or_self, if_false, skipId hwf hrest, parseAttrs hwf hrest, Option.bind_eq_bind, Option.bind_some,
    hbody]
  rfl

/-- Blanks before a node do not matter. -/
theorem parseNextNode_congr {text other : Text} (h : text.dropWhile isSpace = other.dropWhile isSpace) :
    parseNextNode text = parseNextNode other := by
  rw [parseNextNode, h, parseNextNode]

theorem parseNextNode_blank (h : text.dropWhile isSpace = []) : parseNextNode text = none := by
  rw [parseNextNode, h]
  rfl

/-! ## Reading siblings -/

theorem dropWhile_blank (h : IsBlankText text) : text.dropWhile isSpace = [] := by
  rw [List.dropWhile_eq_nil_iff]
  exact h

theorem isBlankText_of_dropWhile (h : text.dropWhile isSpace = []) : IsBlankText text := by
  rw [List.dropWhile_eq_nil_iff] at h
  exact h

/-- The siblings of a node follow it. -/
theorem follows_siblings {n : TextNode} {nodes : List TextNode} (hwf : AllWf (n :: nodes))
    (htrail : IsBlankText trail) :
    FollowsNode (renderAll nodes ++ trail) := by
  cases nodes with
  | nil =>
      constructor
      · intro b r heq
        exact htrail b (by simp [renderAll] at heq; simp [heq])
      · intro b r heq
        rw [renderAll, List.nil_append, dropWhile_blank htrail] at heq
        cases heq
  | cons m nodes =>
      have hlead : m.head.lead ≠ [] := hwf.2.1 m rfl
      have hhead : m.head.Wf := by
        cases m
        exact hwf.2.2.1.1
      have hrender : ∃ more, renderAll (m :: nodes) ++ trail = m.head.lead ++ (m.head.kind ++ hash :: more) := by
        cases m
        simp only [renderAll, TextNode.render, NodeHead.render, List.append_assoc, List.cons_append, TextNode.head]
        exact ⟨_, rfl⟩
      obtain ⟨more, hmore⟩ := hrender
      constructor
      · intro b r heq
        cases hchars : m.head.lead with
        | nil => exact absurd hchars hlead
        | cons c lead =>
            rw [hmore, hchars, List.cons_append, List.cons.injEq] at heq
            exact heq.1 ▸ hhead.lead c (by simp [hchars])
      · intro b r heq
        cases hchars : m.head.kind with
        | nil => exact absurd hchars hhead.kind.1
        | cons c kind =>
            have hname := isNameByte_iff.1 (hhead.kind.2 c (by simp [hchars])).1
            rw [hmore, dropWhile_append_all hhead.lead, hchars, List.cons_append,
              List.dropWhile_cons_of_neg (by simp [hname.1]), List.cons.injEq] at heq
            rw [← heq.1]
            exact hname.2.2.2.1

mutual
def TextNode.size : TextNode → Nat
  | .mk _ children => sizeAll children + 1

/-- The number of nodes. -/
def sizeAll : List TextNode → Nat
  | [] => 0
  | n :: nodes => n.size + sizeAll nodes
end

mutual
theorem TextNode.size_le : (n : TextNode) → n.Wf → n.size ≤ n.render.length
  | .mk head children, hwf => by
      have hchildren := sizeAll_le children hwf.2.2
      have hbraces : sizeAll children ≤ (head.bodyPart (renderAll children)).length := by
        cases children with
        | nil => simp [sizeAll]
        | cons n nodes =>
            rw [NodeHead.bodyPart, if_pos (hwf.2.1 (by simp))]
            simp only [List.length_append, List.length_cons]
            omega
      rw [TextNode.size, TextNode.render, NodeHead.render]
      simp only [List.length_append, List.length_cons]
      omega

theorem sizeAll_le : (nodes : List TextNode) → AllWf nodes → sizeAll nodes ≤ (renderAll nodes).length
  | [], _ => by simp [sizeAll]
  | n :: nodes, hwf => by
      have hhead := TextNode.size_le n hwf.1
      have htail := sizeAll_le nodes hwf.2.2
      rw [sizeAll, renderAll, List.length_append]
      omega
end

/-- What is read of a node: all that is written of it but for the blanks behind its children. -/
inductive Shows : TextNode → Node → Prop
  | mk {head : NodeHead} {children : List TextNode} {nodes : List Node} {rest : Text}
      (hchildren : List.Forall₂ Shows children nodes) (hrest : IsBlankText rest) :
      Shows (.mk head children) (.mk head.kind (attrsText head.attrs) (head.body (renderAll children)) nodes rest)

/-- Reading a text gives the nodes and stops at blanks. -/
def ReadsAs (reading : List Node × Text) (nodes : List TextNode) : Prop :=
  List.Forall₂ Shows nodes reading.1 ∧ IsBlankText reading.2

theorem parseNodesFrom_none (fuel : Nat) (h : parseNextNode text = none) : parseNodesFrom fuel text = ([], text) := by
  cases fuel with
  | zero => rfl
  | succ fuel => simp [parseNodesFrom, h]

theorem parseNodesFrom_some {fuel : Nat} {view : NodeView} (h : parseNextNode text = some view) :
    parseNodesFrom (fuel + 1) text =
      (.mk view.kind view.attrs view.body (parseNodesFrom fuel view.body).1 (parseNodesFrom fuel view.body).2 ::
        (parseNodesFrom fuel view.next).1, (parseNodesFrom fuel view.next).2) := by
  simp [parseNodesFrom, h]

theorem AllPlain.bodies : ∀ {nodes : List TextNode}, AllPlain nodes → ∀ n ∈ nodes, n.PlainBody := by
  intro nodes
  induction nodes with
  | nil => simp
  | cons n nodes ih =>
      intro h m hm
      rcases List.mem_cons.1 hm with rfl | hm
      · exact h.2.1
      · exact ih h.2.2 m hm

/-- The body of a node holds its children. -/
theorem NodeHead.body_dropWhile {h : NodeHead} {children : List TextNode} (hwf : h.Wf)
    (hbraces : children ≠ [] → h.braces = true) :
    (h.body (renderAll children)).dropWhile isSpace = (renderAll children ++ h.trail).dropWhile isSpace := by
  unfold body
  split_ifs with hcase
  · rfl
  · have hnone : children = [] := by
      by_contra hne
      exact hcase (hbraces hne)
    rw [hnone, renderAll, List.nil_append, dropWhile_blank hwf.trail]
    rfl

mutual
theorem TextNode.body_reads : (n : TextNode) → n.Wf → n.PlainBody → ∀ {fuel : Nat}, sizeAll n.children ≤ fuel →
    ReadsAs (parseNodesFrom fuel (n.head.body (renderAll n.children))) n.children
  | .mk _ children, hwf, hplain, _, hfuel =>
      siblings_read children hwf.2.2 (AllPlain.bodies hplain) hwf.1.trail
        (NodeHead.body_dropWhile hwf.1 hwf.2.1) hfuel

/-- Siblings are read in order, with all that is in them. -/
theorem siblings_read : (nodes : List TextNode) → AllWf nodes → (∀ n ∈ nodes, n.PlainBody) →
    ∀ {text trail : Text}, IsBlankText trail →
      text.dropWhile isSpace = (renderAll nodes ++ trail).dropWhile isSpace →
      ∀ {fuel : Nat}, sizeAll nodes ≤ fuel → ReadsAs (parseNodesFrom fuel text) nodes
  | [], _, _, text, trail, htrail, htext, fuel, _ => by
      rw [renderAll, List.nil_append, dropWhile_blank htrail] at htext
      rw [parseNodesFrom_none fuel (parseNextNode_blank htext)]
      exact ⟨.nil, isBlankText_of_dropWhile htext⟩
  | .mk head children :: nodes, hwf, hplain, text, trail, htrail, htext, fuel, hfuel => by
      have hhead := hplain _ List.mem_cons_self
      have hinside := renderAll_balanced children hwf.1.2.2 hhead
      obtain ⟨next, hparse, hnext⟩ := NodeHead.parse hwf.1.1 (follows_siblings hwf htrail) hinside
      rw [renderAll, TextNode.render, List.append_assoc] at htext
      rw [← parseNextNode_congr htext] at hparse
      simp only [sizeAll, TextNode.size] at hfuel
      cases fuel with
      | zero => omega
      | succ fuel =>
          have hchildren := TextNode.body_reads (.mk head children) hwf.1 hhead (show sizeAll children ≤ fuel by omega)
          have hsiblings := siblings_read nodes hwf.2.2 (fun n hn => hplain n (List.mem_cons_of_mem _ hn)) htrail hnext
            (show sizeAll nodes ≤ fuel by omega)
          rw [parseNodesFrom_some hparse]
          exact ⟨.cons (.mk hchildren.1 hchildren.2) hsiblings.1, hsiblings.2⟩
end

/-! ## Node text parses back -/

/-- A node is read back from its text and the text behind it. -/
structure TextNode.ParsesBack (n : TextNode) (rest : Text) : Prop where
  node : ∃ next, parseNextNode (n.render ++ rest) =
      some ⟨n.head.kind, attrsText n.head.attrs, n.head.body (renderAll n.children), next⟩ ∧
    parseNextNode next = parseNextNode rest
  children : ReadsAs (parseNodes (n.head.body (renderAll n.children))) n.children
  attrs : ∀ a ∈ n.head.attrs, a.ReadsBack (attrsText n.head.attrs)

/-- A well-formed node is read back when the nodes in its body have no brackets or quotes that are not in strings. -/
theorem node_parses_back {n : TextNode} {siblings : List TextNode} {trail : Text} (hwf : AllWf (n :: siblings))
    (hplain : n.PlainBody) (htrail : IsBlankText trail) : n.ParsesBack (renderAll siblings ++ trail) where
  node := by
    cases n with
    | mk head children =>
        have hinside := renderAll_balanced children hwf.1.2.2 hplain
        obtain ⟨next, hparse, hnext⟩ := NodeHead.parse hwf.1.1 (follows_siblings hwf htrail) hinside
        exact ⟨next, hparse, parseNextNode_congr hnext⟩
  children := by
    have hsize : sizeAll n.children ≤ (n.head.body (renderAll n.children)).length + 1 := by
      cases n with
      | mk head children =>
          cases children with
          | nil => simp [TextNode.children, sizeAll]
          | cons m nodes =>
              have hchildren := sizeAll_le (m :: nodes) hwf.1.2.2
              have hbraces : head.braces = true := hwf.1.2.1 (by simp)
              simp only [TextNode.children, TextNode.head, NodeHead.body, hbraces, if_true, List.length_append]
              omega
    exact TextNode.body_reads n hwf.1 hplain hsize
  attrs a ha := by
    cases n with
    | mk head children => exact hwf.1.1.attrs.readsBack ha

/-- `C#c(name="}")`. -/
def closedChild : TextNode :=
  .mk ⟨[], ascii "C", ascii "c", [⟨[], ascii "name", .quoted ⟨[closeBrace], by decide⟩⟩], true, [], false, []⟩ []

/-- `P#p{C#c(name="}") D#d}`. -/
def closedParent : TextNode :=
  .mk ⟨[], ascii "P", ascii "p", [], false, [], true, []⟩
    [closedChild, .mk ⟨[32], ascii "D", ascii "d", [], false, [], false, []⟩ []]

/-- `C#c(name=})`. -/
def bareChild : TextNode :=
  .mk ⟨[], ascii "C", ascii "c", [⟨[], ascii "name", .bare [closeBrace]⟩], true, [], false, []⟩ []

/-- `P#p{C#c(name=})}`. -/
def bareParent : TextNode := .mk ⟨[], ascii "P", ascii "p", [], false, [], true, []⟩ [bareChild]

/-- Short heads of letters are well formed. -/
theorem NodeHead.wf_of {h : NodeHead} (hlead : h.lead.all isSpace = true) (hkind : h.kind ≠ [])
    (hname : h.kind.all (fun b => isNameByte b ∧ b ≠ hash) = true) (hid : h.id.all isNameByte = true)
    (hattrs : AttrsWf h.attrs) (hlength : h.kind.length < 32 ∧ (attrsText h.attrs).length < 512)
    (hparens : h.attrs ≠ [] → h.parens = true) (hgap : h.gap = []) (htrail : h.trail = []) : h.Wf where
  lead := List.all_eq_true.1 hlead
  kind := ⟨hkind, by simpa using hname⟩
  kindLength := hlength.1
  id := List.all_eq_true.1 hid
  attrs := hattrs
  attrsLength := hlength.2
  parens := hparens
  gap := by simp [hgap, IsBlankText]
  trail := by simp [htrail, IsBlankText]

theorem closedParent_wf : AllWf [closedParent] := by
  have hparent := NodeHead.wf_of (h := closedParent.head) (by decide) (by decide) (by decide) (by decide) attrsWf_nil
    (by decide) (by decide) rfl rfl
  have hchild := NodeHead.wf_of (h := closedChild.head) (by decide) (by decide) (by decide) (by decide)
    (attrsWf_single (by decide) trivial) (by decide) (by decide) rfl rfl
  have hsibling : NodeHead.Wf ⟨[32], ascii "D", ascii "d", [], false, [], false, []⟩ :=
    NodeHead.wf_of (by decide) (by decide) (by decide) (by decide) attrsWf_nil (by decide) (by decide) rfl rfl
  exact ⟨⟨hparent, fun _ => rfl, ⟨hchild, by simp, trivial⟩, by simp [TextNode.head], ⟨hsibling, by simp, trivial⟩,
    by simp, trivial⟩, by simp, trivial⟩

theorem bareParent_wf : AllWf [bareParent] := by
  have hparent := NodeHead.wf_of (h := bareParent.head) (by decide) (by decide) (by decide) (by decide) attrsWf_nil
    (by decide) (by decide) rfl rfl
  have hword : (TextValue.bare [closeBrace]).Wf := by
    constructor
    · decide
    · intro b hb
      rw [List.mem_singleton.1 hb]
      decide
  have hchild := NodeHead.wf_of (h := bareChild.head) (by decide) (by decide) (by decide) (by decide)
    (attrsWf_single (by decide) hword) (by decide) (by decide) rfl rfl
  exact ⟨⟨hparent, fun _ => rfl, ⟨hchild, by simp, trivial⟩, by simp, trivial⟩, by simp, trivial⟩

theorem closedParent_plain : closedParent.PlainBody := by
  have hchild : closedChild.head.Plain := by
    constructor
    · decide
    · decide
    · intro a ha
      rw [List.mem_singleton.1 ha]
      trivial
  have hsibling : NodeHead.Plain ⟨[32], ascii "D", ascii "d", [], false, [], false, []⟩ :=
    ⟨by decide, by decide, by simp⟩
  exact ⟨hchild, trivial, hsibling, trivial, trivial⟩

theorem closedParent_parses_back : closedParent.ParsesBack (renderAll [] ++ []) :=
  node_parses_back closedParent_wf closedParent_plain (by simp [IsBlankText])

/-- A brace in the bare word of a child ends the body of its parent. -/
theorem brace_in_word : ¬ ∀ (n : TextNode) (siblings : List TextNode) (trail : Text), AllWf (n :: siblings) →
    IsBlankText trail → n.ParsesBack (renderAll siblings ++ trail) := by
  intro hall
  obtain ⟨next, hnode, -⟩ := (hall bareParent [] [] bareParent_wf (by simp [IsBlankText])).node
  have hread : (parseNextNode (bareParent.render ++ (renderAll [] ++ []))).map NodeView.body =
      some (ascii "C#c(name=") := by
    decide
  rw [hnode, Option.map_some, Option.some.injEq] at hread
  have hother : bareParent.head.body (renderAll bareParent.children) ≠ ascii "C#c(name=" := by decide
  exact hother hread

end Aivm
