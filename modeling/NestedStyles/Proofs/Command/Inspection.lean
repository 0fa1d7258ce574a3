import NestedStyles.Command.Report
import NestedStyles.Proofs.Block.Address
import NestedStyles.Proofs.Compilation.Outcome

/-!
# What is listed of a forest

Two walks go through a forest without recursion: one collects its rules, the other prints it for `inspect`. Both follow
the pre-order. So the blocks with declarations that `inspect` shows about a source are the rules it compiles to.

- `Report.listing`, `Report.inspection`: what is to be printed of a block and of a whole forest.
- `Report.treeLines_append`, `Report.stdout_inspectBlocks`: the walk prints it.
- `Command.reportOn_inspect`: what is printed about a source that compiles.
- `Report.walks_preorder`: all of it.
-/

namespace NestedStyles

namespace Report

/-! ## What is to be printed -/

/-- Two spaces for each level. -/
def margin (depth : Nat) : String := String.join (List.replicate depth "  ")

/-- The lines about a block that has `depth` ancestors: its selector with the number of its declarations, and a level
deeper each declaration. -/
def listing (depth : Nat) (r : Rule) : List String :=
  (margin depth ++ r.selector ++ "  (" ++ toString r.declarations.length ++ " declaration(s))") ::
    r.declarations.map fun d => margin (depth + 1) ++ d.property ++ ": " ++ d.value

/-- The text of `inspect`: the number of outermost blocks, the blocks as they are listed, each at its depth, and the
diagnostics if there are any. -/
def inspection (outermost : Nat) (listed : List (Nat × Rule)) (notes : List Diagnostic) : String :=
  let blocks := listed.flatMap fun entry => listing entry.1 entry.2
  let problems := if notes = [] then [] else "" :: "Diagnostics:" :: notes.map fun d => "  " ++ d.text
  String.join ((["Blocks: " ++ toString outermost, ""] ++ blocks ++ problems).map (· ++ "\n"))

/-- A block as it is listed, without the blocks inside it. -/
def entry (visited : Nat × Block) : Nat × Rule := (visited.1, visited.2.rule)

/-! ## The walk -/

theorem margin_succ (depth : Nat) : margin (depth + 1) = margin depth ++ "  " := by
  rw [margin, List.replicate_succ', String.join_append, margin]
  rfl

theorem ofList_replicate (depth : Nat) : String.ofList (List.replicate (2 * depth) ' ') = margin depth := by
  induction depth with
  | zero => rfl
  | succ depth ih =>
    rw [margin_succ, ← ih, Nat.mul_succ, ← List.replicate_append_replicate, String.ofList_append]
    rfl

theorem blockLines_eq (depth : Nat) (b : Block) : blockLines depth b = listing depth b.rule := by
  rw [blockLines, ofList_replicate, listing, margin_succ]
  rfl

mutual

theorem treeLines_cons (depth : Nat) (b : Block) (pending : List (Nat × Block)) :
    treeLines ((depth, b) :: pending) =
      ((b.preorder depth).map entry).flatMap (fun e => listing e.1 e.2) ++ treeLines pending := by
  match b with
  | ⟨selector, declarations, children⟩ =>
    rw [treeLines, treeLines_append (depth + 1) children pending, blockLines_eq, Block.preorder, ← List.append_assoc]
    rfl

/-- **The walk prints the pre-order**, first of what comes next and then of what is still to be shown, whatever the
depths of that are. -/
theorem treeLines_append (depth : Nat) (bs : List Block) (pending : List (Nat × Block)) :
    treeLines (atDepth depth bs ++ pending) =
      ((Block.preorderAll depth bs).map entry).flatMap (fun e => listing e.1 e.2) ++ treeLines pending := by
  match bs with
  | [] => rfl
  | b :: bs =>
    show treeLines ((depth, b) :: (atDepth depth bs ++ pending)) = _
    rw [treeLines_cons depth b, treeLines_append depth bs, Block.preorderAll, List.map_append, List.flatMap_append,
      List.append_assoc]

end

theorem stdout_inspectBlocks (blocks : List Block) (notes : List Diagnostic) :
    (inspectBlocks blocks notes).stdout =
      inspection blocks.length ((Block.preorderAll 0 blocks).map entry) notes := by
  have htree := treeLines_append 0 blocks []
  rw [List.append_nil, treeLines, List.append_nil] at htree
  simp only [inspectBlocks, inspection, htree, List.isEmpty_iff]
  rfl

/-- The rules of a forest are what is listed of it with a declaration. -/
theorem rules_eq_entries (blocks : List Block) :
    Block.rules blocks =
      (((Block.preorderAll 0 blocks).map entry).map Prod.snd).filter fun r => r.declarations ≠ [] := by
  rw [Block.rules_eq_rulesListed 0, Block.rulesListed, List.map_map, List.filter_map]
  refine congrArg (List.map _) (List.filter_congr fun visited _ => ?_)
  cases hdeclarations : visited.2.declarations with
  | nil => simp [entry, Block.rule, hdeclarations]
  | cons d ds => simp [entry, Block.rule, hdeclarations]

end Report

/-- A source that compiles can be inspected, and the forest that is shown is the one its rules are from. -/
theorem Command.reportOn_inspect {options : Options} {text : String} {c : Compilation}
    (h : NestedStyles.compile options text = .ok c) (verbose : Bool) (source : String) :
    ∃ blocks, (Document.read (Token.significant text)).value = .ok blocks ∧
      (Command.inspect source false).reportOn verbose text = .ok (Report.inspectBlocks blocks c.diagnostics) ∧
      c.blockCount = blocks.length ∧ c.rules = Block.rules blocks := by
  obtain ⟨blocks, hread, rfl, -⟩ := compile_eq_ok_iff.1 h
  refine ⟨blocks, hread, ?_, rfl, rfl⟩
  rw [reportOn, hread]
  rfl

/-- **Both walks of a forest follow its pre-order.** The recursive pre-order lists every block once, in the order of
addresses, with its number of ancestors. The rules of the forest are the blocks with declarations in that list, and
`inspect` prints the list. So if a source compiles, the blocks with declarations that `inspect` prints about it are its
rules. -/
theorem Report.walks_preorder :
    (∀ blocks : List Block, Block.InPreorder blocks (Block.preorderAll 0 blocks) ∧
      Block.rules blocks = Block.rulesListed (Block.preorderAll 0 blocks) ∧
      ∀ notes, (inspectBlocks blocks notes).stdout =
        inspection blocks.length ((Block.preorderAll 0 blocks).map entry) notes) ∧
    ∀ options text c, NestedStyles.compile options text = .ok c → ∀ verbose source,
      ∃ blocks listed report, (Document.read (Token.significant text)).value = .ok blocks ∧
        listed = (Block.preorderAll 0 blocks).map entry ∧
        (Command.inspect source false).reportOn verbose text = .ok report ∧
        report.stdout = inspection c.blockCount listed c.diagnostics ∧
        (listed.map Prod.snd).filter (fun r => r.declarations ≠ []) = c.rules := by
  constructor
  · intro blocks
    exact ⟨Block.preorderAll_inPreorder blocks, Block.rules_eq_rulesListed 0 blocks, stdout_inspectBlocks blocks⟩
  · intro options text c h verbose source
    obtain ⟨blocks, hread, hreport, hcount, hrules⟩ := Command.reportOn_inspect h verbose source
    refine ⟨blocks, _, _, hread, rfl, hreport, ?_, ?_⟩
    · rw [hcount, stdout_inspectBlocks]
    · rw [hrules, rules_eq_entries]

namespace Sample

/-- Blocks that branch at two levels, some of them without declarations. -/
def branching : String :=
  "nav = \x7b ul = \x7b gap = 0, li = \x7b top = 1 \x7d \x7d, " ++
    "a = \x7b hover = function() ink = red end \x7d \x7d p = \x7b gap = 2"

def branchingRules : List Rule :=
  [⟨"nav ul", [⟨"gap", "0"⟩]⟩, ⟨"nav ul li", [⟨"top", "1"⟩]⟩, ⟨"nav a:hover", [⟨"ink", "red"⟩]⟩, ⟨"p", [⟨"gap", "2"⟩]⟩]

def branchingListed : List (Nat × Rule) :=
  [(0, ⟨"nav", []⟩), (1, ⟨"nav ul", [⟨"gap", "0"⟩]⟩), (2, ⟨"nav ul li", [⟨"top", "1"⟩]⟩), (1, ⟨"nav a", []⟩),
    (2, ⟨"nav a:hover", [⟨"ink", "red"⟩]⟩), (0, ⟨"p", [⟨"gap", "2"⟩]⟩)]

end Sample

theorem Report.walks_preorder_branching :
    ∃ c report, NestedStyles.compile {} Sample.branching = .ok c ∧ c.succeeded = true ∧
      (Command.inspect "nav.luacss" false).reportOn false Sample.branching = .ok report ∧
      report.stdout = "Blocks: 2\n\n" ++
        "nav  (0 declaration(s))\n" ++
        "  nav ul  (1 declaration(s))\n" ++
        "    gap: 0\n" ++
        "    nav ul li  (1 declaration(s))\n" ++
        "      top: 1\n" ++
        "  nav a  (0 declaration(s))\n" ++
        "    nav a:hover  (1 declaration(s))\n" ++
        "      ink: red\n" ++
        "p  (1 declaration(s))\n" ++
        "  gap: 2\n" ++
        "\nDiagnostics:\n" ++
        "  syntax: Expected '\x7d' but got 'EOF'\n" ∧
      c.rules = Sample.branchingRules := by
  have hcompile : NestedStyles.compile {} Sample.branching =
      .ok ⟨some (Stylesheet.render 2 Sample.branchingRules), [⟨.expected "\x7d" none, none, none⟩],
        Sample.branchingRules, 39, 2⟩ := by decide +kernel
  have hforest : (Document.read (Token.significant Sample.branching)).value.map
      (fun blocks => (Block.preorderAll 0 blocks).map entry) = .ok Sample.branchingListed := by decide +kernel
  obtain ⟨blocks, listed, report, hread, hlisted, hreport, hstdout, -⟩ :=
    walks_preorder.2 {} Sample.branching _ hcompile false "nav.luacss"
  rw [hread] at hforest
  obtain rfl : listed = Sample.branchingListed := hlisted.trans (Except.ok.inj hforest)
  refine ⟨_, report, hcompile, rfl, hreport, ?_, rfl⟩
  rw [hstdout]
  decide +kernel

end NestedStyles
