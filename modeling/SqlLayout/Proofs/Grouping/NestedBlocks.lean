import SqlLayout.Proofs.Grouping.Depth

/-!
# Blocks in blocks

So many BEGIN tokens and as many END tokens behind them are grouped into blocks
that lie in each other, whatever the limit of nesting is: the walk that pairs the
tokens builds them from the inside out and never looks into one.
-/

namespace SqlLayout

def beginToken : Token := { category := .keyword, value := Text.of "BEGIN" }

def endToken : Token := { category := .keyword, value := Text.of "END" }

/-- Tokens that open blocks, and as many that close them. -/
def blockTokens (n : Nat) : List Token :=
  List.replicate n beginToken ++ List.replicate n endToken

namespace Rose

def blocks : Nat -> List Rose
  | 0 => []
  | n + 1 => [.group .beginBlock (.token beginToken :: blocks n ++ [.token endToken])]

def pending (closed waiting : Nat) : List Rose :=
  List.replicate waiting (.token beginToken) ++ blocks closed ++
    List.replicate waiting (.token endToken)

theorem length_pending (closed waiting : Nat) :
    (pending closed waiting).length = waiting + (blocks closed).length + waiting := by
  simp [pending, Nat.add_assoc]

theorem pending_succ (closed waiting : Nat) :
    pending closed (waiting + 1) = List.replicate waiting (.token beginToken) ++
      (.token beginToken :: blocks closed ++ [.token endToken]) ++
        List.replicate waiting (.token endToken) := by
  unfold pending
  rw [List.replicate_succ', List.replicate_succ]
  simp

theorem pending_of_regroups {closed waiting : Nat} {span : Span} {roses : List Rose}
    (h : span.Regroups (pending closed (waiting + 1)) roses) (hkind : span.kind = .beginBlock)
    (hextend : span.extend = false) (hstart : span.start = waiting)
    (hstop : span.stop = waiting + 1 + (blocks closed).length) :
    roses = pending (closed + 1) waiting := by
  generalize hwhole : pending closed (waiting + 1) = whole at h
  rw [pending_succ] at hwhole
  cases h with
  | absorbs hyes _ _ =>
      rw [hextend] at hyes
      cases hyes
  | @wraps front moved back hfront hmoved _ =>
      have hlengths : (List.replicate waiting (Rose.token beginToken)).length = front.length := by
        rw [List.length_replicate, hfront, hstart]
      have hmiddle : (Rose.token beginToken :: blocks closed ++ [Rose.token endToken]).length =
          moved.length := by
        rw [List.length_append, List.length_cons, List.length_singleton]
        omega
      rcases List.append_inj hwhole (by
        rw [List.length_append, hlengths, hmiddle, List.length_append]) with ⟨hboth, rfl⟩
      rcases List.append_inj hboth hlengths with ⟨rfl, rfl⟩
      rw [hkind]
      unfold pending
      rw [blocks, List.append_assoc]
      rfl

end Rose

/-!
# The walk
-/

namespace Pass

open Grouping

/-- The walk first meets the opening tokens and then closes the blocks, the
innermost first. -/
inductive Nesting (n : Nat) (list : NodeId) (tree : Tree) (cursor : Cursor) : Prop where
  | opening {i : Nat} : i < n -> cursor.idx = i -> cursor.opens = (List.range i).reverse ->
      (tree.children list).map tree.rose = Rose.pending 0 n -> Nesting n list tree cursor
  | closing {closed waiting : Nat} : closed + waiting = n ->
      cursor.idx = waiting + (Rose.blocks closed).length ->
      cursor.opens = (List.range waiting).reverse ->
      (tree.children list).map tree.rose = Rose.pending closed waiting ->
      Nesting n list tree cursor

variable {n : Nat} {list : NodeId} {tree : Tree} {cursor : Cursor}

theorem nesting_of_opened {i : Nat} (hle : i <= n) (hidx : cursor.idx = i)
    (hopens : cursor.opens = (List.range i).reverse)
    (hroses : (tree.children list).map tree.rose = Rose.pending 0 n) :
    Nesting n list tree cursor := by
  rcases Nat.lt_or_eq_of_le hle with hlt | rfl
  · exact Nesting.opening hlt hidx hopens hroses
  · exact Nesting.closing (Nat.zero_add i) hidx hopens hroses

theorem token?_of_roses (hwf : tree.WellFormed) {roses : List Rose} {idx : Nat} {id : NodeId}
    {token : Token} (hroses : (tree.children list).map tree.rose = roses)
    (hchild : tree.child? list idx = some id) (hget : roses[idx]? = some (.token token)) :
    tree.token? id = some token := by
  rw [← hroses, List.getElem?_map] at hget
  unfold Tree.child? at hchild
  rw [hchild, Option.map_some, Option.some.injEq] at hget
  exact hwf.token?_of_rose (hwf.child_lt_size (List.mem_of_getElem? hchild)) hget

theorem opensPair_beginToken {id : NodeId} (h : tree.token? id = some beginToken) :
    tree.opensPair ⟨.keyword, [Text.of "BEGIN"]⟩ id = true := by
  unfold Tree.opensPair Tree.isWhitespace Tree.hits Tree.tokenHas
  rw [h]
  decide

theorem shutsPair_endToken {id : NodeId} (h : tree.token? id = some endToken) :
    tree.shutsPair ⟨.keyword, [Text.of "BEGIN"]⟩ ⟨.keyword, [Text.of "END"]⟩ id = true := by
  unfold Tree.shutsPair Tree.isWhitespace Tree.hits Tree.tokenHas
  rw [h]
  decide

theorem planPair_beginToken {id : NodeId} (hchild : tree.child? list cursor.idx = some id)
    (h : tree.token? id = some beginToken) :
    (Pass.pairs .beginBlock).plan tree list cursor =
      some (.skip { cursor with opens := cursor.idx :: cursor.opens }) := by
  have hopens := opensPair_beginToken h
  change planPair .beginBlock ⟨.keyword, [Text.of "BEGIN"]⟩ ⟨.keyword, [Text.of "END"]⟩ tree list
    cursor = _
  rcases @planPair_of_child .beginBlock ⟨.keyword, [Text.of "BEGIN"]⟩ ⟨.keyword, [Text.of "END"]⟩
      _ _ _ _ hchild with
    ⟨_, hnot, _, _⟩ | ⟨_, _, _, hmove⟩ | ⟨_, hshuts, _⟩ | ⟨_, hnot, _, _⟩
  · rw [hopens] at hnot
    cases hnot
  · exact hmove
  · unfold Tree.opensPair at hopens
    unfold Tree.shutsPair at hshuts
    simp_all
  · rw [hopens] at hnot
    cases hnot

theorem planPair_endToken {id : NodeId} {start : Nat} {opens : List Nat}
    (hchild : tree.child? list cursor.idx = some id) (h : tree.token? id = some endToken)
    (hopens : cursor.opens = start :: opens) :
    (Pass.pairs .beginBlock).plan tree list cursor =
      some
        { span := some { kind := .beginBlock, start := start, stop := cursor.idx }
          cursor := { idx := start + 1, opens := opens } } := by
  have hshuts := shutsPair_endToken h
  change planPair .beginBlock ⟨.keyword, [Text.of "BEGIN"]⟩ ⟨.keyword, [Text.of "END"]⟩ tree list
    cursor = _
  rcases @planPair_of_child .beginBlock ⟨.keyword, [Text.of "BEGIN"]⟩ ⟨.keyword, [Text.of "END"]⟩
      _ _ _ _ hchild with
    ⟨_, _, hnot, _⟩ | ⟨_, _, hnot, _⟩ | ⟨_, _, other, rest, hsome, hmove⟩ | ⟨_, _, hempty, _⟩
  · rw [hshuts] at hnot
    cases hnot
  · rw [hshuts] at hnot
    cases hnot
  · rw [hopens] at hsome
    cases hsome
    exact hmove
  · rw [hempty hshuts] at hopens
    cases hopens

theorem nesting_of_moved (hwf : tree.WellFormed) {move : Move}
    (hfits : move.Fits tree list cursor) (h : Nesting n list tree cursor)
    (hplan : (Pass.pairs .beginBlock).plan tree list cursor = some move) :
    move.visit = none ∧ forall visit after, Moved visit list move tree after ->
      Nesting n list after move.cursor := by
  rcases hfits.exists_child with ⟨id, hchild⟩
  cases h with
  | @opening i hlt hidx hopens hroses =>
      have htoken : tree.token? id = some beginToken := by
        apply token?_of_roses hwf hroses hchild
        rw [hidx]
        unfold Rose.pending
        rw [List.append_assoc, List.getElem?_append_left (by rw [List.length_replicate]; exact hlt),
          List.getElem?_replicate, if_pos hlt]
      rw [planPair_beginToken hchild htoken] at hplan
      cases hplan
      refine ⟨rfl, ?_⟩
      intro visit after hmoved
      cases hmoved with
      | skip _ _ heq =>
          rw [heq]
          apply nesting_of_opened hlt (congrArg (· + 1) hidx) _ hroses
          rw [List.range_succ, List.reverse_append, List.reverse_singleton, ← hopens, ← hidx]
          rfl
      | visit hvisited _ _ =>
          cases hvisited
      | span hspan _ =>
          cases hspan
  | @closing closed waiting hsum hidx hopens hroses =>
      cases waiting with
      | zero =>
          have hlength := congrArg List.length hroses
          rw [List.length_map, Rose.length_pending] at hlength
          have hinside := hfits.inside
          unfold Tree.childCount at hinside
          omega
      | succ waiting =>
          have htoken : tree.token? id = some endToken := by
            apply token?_of_roses hwf hroses hchild
            unfold Rose.pending
            rw [List.getElem?_append_right (by rw [hidx]; simp), hidx]
            simp
          rw [List.range_succ, List.reverse_append, List.reverse_singleton,
            List.singleton_append] at hopens
          rw [planPair_endToken hchild htoken hopens] at hplan
          cases hplan
          refine ⟨rfl, ?_⟩
          intro visit after hmoved
          cases hmoved with
          | skip _ hnone _ =>
              cases hnone
          | visit hvisited _ _ =>
              cases hvisited
          | span _ hgroups =>
              rcases hgroups.regroups hwf hfits with ⟨span, hspan, _, hregroups⟩
              cases hspan
              change Span.Regroups _ ((tree.children list).map tree.rose) _ at hregroups
              rw [hroses] at hregroups
              have hroses' := Rose.pending_of_regroups hregroups rfl rfl rfl hidx
              exact Nesting.closing (by omega) (by rw [Rose.blocks]; rfl) rfl hroses'

theorem blocks_of_pairs_run (limit : Nat) {room : Nat} (hroom : 0 < room) (hwf : tree.WellFormed)
    (hroses : (tree.children list).map tree.rose = (blockTokens n).map Rose.token) :
    exists after, exec ((Pass.pairs .beginBlock).run limit room list) tree = (.ok (), after) ∧
      (after.children list).map after.rose = Rose.blocks n := by
  rcases Nat.exists_eq_add_one_of_ne_zero (Nat.ne_of_gt hroom) with ⟨room, rfl⟩
  have hsound : (Pass.pairs .beginBlock).Sound := Pass.all_sound _ (by simp [Pass.all])
  have htags := tagsChildren_pairs .beginBlock
  have hstart : Nesting n list tree {} := by
    apply nesting_of_opened (Nat.zero_le n) rfl rfl
    rw [hroses]
    simp [blockTokens, Rose.pending, Rose.blocks]
  rcases walk_ok hsound htags
      (fun id _ hwf => run_changesWithin hsound htags limit room id hwf)
      (fun tree after cursor move hwf hcursor hinvariant hplan hmoved =>
        (nesting_of_moved hwf (hsound tree list cursor move hcursor hplan) hinvariant hplan).2
          _ after hmoved)
      (fun tree cursor move hwf hcursor hinvariant hplan =>
        (nesting_of_moved hwf (hsound tree list cursor move hcursor hplan) hinvariant hplan).1)
      hwf (Cursor.ordered_at 0) (Nat.le_add_left _ _) hstart with
    ⟨after, last, hexec, hlast, hend⟩
  rw [exec_pairs_run rfl rfl]
  refine ⟨after, hexec, ?_⟩
  have hcount := childCount_le_of_pairs_end rfl rfl hend
  unfold Tree.childCount at hcount
  cases hlast with
  | @opening i hlt hidx _ hroses =>
      have hlength := congrArg List.length hroses
      rw [List.length_map, Rose.length_pending] at hlength
      omega
  | @closing closed waiting hsum hidx _ hroses =>
      have hlength := congrArg List.length hroses
      rw [List.length_map, Rose.length_pending] at hlength
      have hzero : waiting = 0 := by
        omega
      rw [hzero] at hroses hsum
      rw [hroses, ← hsum]
      simp [Rose.pending]

end Pass

/-!
# Whole statements
-/

open Grouping

theorem Tree.WellFormed.exists_path_of_blocks {tree : Tree} (h : tree.WellFormed) {n : Nat}
    {list : NodeId} {left right : List Rose}
    (hroses : (tree.children list).map tree.rose = left ++ Rose.blocks n ++ right) :
    exists path, tree.IsPath (list :: path) ∧ path.length = n ∧
      forall id, id ∈ path -> tree.isKind id .beginBlock = true := by
  induction n generalizing list left right with
  | zero =>
      exact ⟨[], List.IsChain.singleton list, rfl, List.forall_mem_nil _⟩
  | succ n ih =>
      rw [Rose.blocks, List.append_assoc, List.singleton_append] at hroses
      rcases List.map_eq_append_iff.mp hroses with ⟨front, behind, hsplit, _, hbehind⟩
      rcases List.map_eq_cons_iff.mp hbehind with ⟨id, back, rfl, hid, _⟩
      have hmem : id ∈ tree.children list := by
        rw [hsplit]
        simp
      rcases h.kind?_of_rose (h.child_lt_size hmem) hid with ⟨hkind, hchildren⟩
      rcases @ih id [.token beginToken] [.token endToken] hchildren.symm with
        ⟨path, hpath, hlength, hblocks⟩
      refine ⟨id :: path, List.IsChain.cons_cons hmem hpath, congrArg (· + 1) hlength, ?_⟩
      intro other hother
      rcases List.mem_cons.mp hother with rfl | hrest
      · exact beq_iff_eq.mpr hkind
      · exact hblocks other hrest

theorem Survey.triggers_pass_over_blocks :
    (Survey.triggers.dropLast.all fun pair => !pair.2.token beginToken && !pair.2.token endToken &&
      !pair.2.kind .statement) = true := by
  decide

namespace Statement

theorem idle_before_last {limit n : Nat} (hlimit : 0 < limit) :
    Idle (Pass.all.dropLast.forM fun pass =>
        pass.run limit limit (ofTokens (blockTokens n)).root)
      (ofTokens (blockTokens n)).tree := by
  apply @idle_of_lacks limit hlimit (blockTokens n) Survey.triggers.dropLast
    (fun pair hpair => List.mem_of_mem_dropLast hpair)
  intro pair hpair
  have hlacks := List.all_eq_true.mp Survey.triggers_pass_over_blocks pair hpair
  simp only [Bool.and_eq_true, Bool.not_eq_true'] at hlacks
  refine ⟨hlacks.2, ?_⟩
  intro token htoken
  rcases List.mem_append.mp htoken with hbegin | hend
  · rw [List.eq_of_mem_replicate hbegin]
    exact hlacks.1.1
  · rw [List.eq_of_mem_replicate hend]
    exact hlacks.1.2

/-- Blocks may lie in each other to any depth. -/
theorem exists_nested_blocks {limit : Nat} (hlimit : 0 < limit) (n : Nat) :
    exists after path, (ofTokens (blockTokens n)).group limit = .ok after ∧
      after.tree.IsPath (after.root :: path) ∧ path.length = n ∧
      forall id, id ∈ path -> after.tree.isKind id .beginBlock = true := by
  have hwf := wellFormed_ofTokens (blockTokens n)
  have hidle := @idle_before_last limit n hlimit
  have hroses : ((ofTokens (blockTokens n)).tree.children (ofTokens (blockTokens n)).root).map
      (ofTokens (blockTokens n)).tree.rose = (blockTokens n).map Rose.token := by
    have hrose := rose_ofTokens (blockTokens n)
    rw [hwf.rose_of_kind? (kind?_root_ofTokens _), Rose.group.injEq] at hrose
    exact hrose.2
  rcases Pass.blocks_of_pairs_run limit hlimit hwf hroses with ⟨after, hexec, hblocks⟩
  have hall : exec (Pass.all.forM fun pass =>
      pass.run limit limit (ofTokens (blockTokens n)).root) (ofTokens (blockTokens n)).tree =
        (.ok (), after) := by
    change exec ((Pass.all.dropLast ++ [Pass.pairs .beginBlock]).forM fun pass =>
      pass.run limit limit (ofTokens (blockTokens n)).root) (ofTokens (blockTokens n)).tree = _
    rw [exec_forM_append, exec_bind, hidle]
    change exec ((Pass.pairs .beginBlock).run limit limit (ofTokens (blockTokens n)).root >>=
      fun _ => pure ()) (ofTokens (blockTokens n)).tree = _
    rw [exec_bind, hexec]
    rfl
  have hafter : after.WellFormed := by
    have hsafe := groupInPlace_steps hwf limit
    change Safe Tree.GroupStep limit _ (exec (Pass.all.forM fun pass =>
      pass.run limit limit (ofTokens (blockTokens n)).root) (ofTokens (blockTokens n)).tree)
      at hsafe
    rw [hall] at hsafe
    exact Tree.groupStep_keepsWellFormed.run hwf hsafe.steps
  rcases @Tree.WellFormed.exists_path_of_blocks after hafter n (ofTokens (blockTokens n)).root [] []
    (by rw [hblocks]; simp) with ⟨path, hpath, hlength, hkinds⟩
  exact ⟨{ ofTokens (blockTokens n) with tree := after }, path,
    group_ok_iff_exec.mpr ⟨hall, rfl⟩, hpath, hlength, hkinds⟩

/-- The limit bounds the groups on a path that are not blocks from BEGIN to END,
and it does not bound the blocks. -/
theorem group_bounds_all_but_blocks {limit : Nat} (hlimit : 0 < limit) (n : Nat) :
    (forall tokens after path, (ofTokens tokens).group limit = .ok after ->
      after.tree.IsPath (after.root :: path) ->
      (after.root :: path).countP (after.tree.counts (· == .beginBlock)) <= limit) ∧
    exists after path, (ofTokens (blockTokens n)).group limit = .ok after ∧
      after.tree.IsPath (after.root :: path) ∧ path.length = n ∧
      forall id, id ∈ path -> after.tree.isKind id .beginBlock = true := by
  refine ⟨?_, exists_nested_blocks hlimit n⟩
  intro tokens after path hgroup hpath
  rcases nests_of_group hgroup with ⟨hwf, hnests⟩
  exact hwf.countP_le_of_nests hnests hpath

theorem group_bounds_all_but_blocks_default :
    0 < defaultMaxDepth ∧
    (forall tokens after path, (ofTokens tokens).group = .ok after ->
      after.tree.IsPath (after.root :: path) ->
      (after.root :: path).countP (after.tree.counts (· == .beginBlock)) <= defaultMaxDepth) ∧
    exists after path, (ofTokens (blockTokens 300)).group = .ok after ∧
      after.tree.IsPath (after.root :: path) ∧ path.length = 300 ∧
      forall id, id ∈ path -> after.tree.isKind id .beginBlock = true :=
  ⟨by decide, group_bounds_all_but_blocks (by decide) 300⟩

/-- There is no bound on all groups of a path. -/
theorem no_depth_bound :
    ¬ forall limit, exists bound, forall tokens after path,
      (ofTokens tokens).group limit = .ok after -> after.tree.IsPath (after.root :: path) ->
        (after.root :: path).countP after.tree.isGroup <= bound := by
  intro h
  rcases h defaultMaxDepth with ⟨bound, hbound⟩
  rcases exists_nested_blocks (by decide : 0 < defaultMaxDepth) (bound + 1) with
    ⟨after, path, hgroup, hpath, hlength, hkinds⟩
  have hall : path.countP after.tree.isGroup = path.length := by
    apply List.countP_eq_length.mpr
    intro id hid
    exact Tree.isGroup_iff_kind?.mpr ⟨_, beq_iff_eq.mp (hkinds id hid)⟩
  have hle := hbound (blockTokens (bound + 1)) after path hgroup hpath
  rw [List.countP_cons, hall, hlength] at hle
  omega

end Statement
end SqlLayout
