/-
Reparse/Wire/Grammar.lean

The binary form of a grammar, part by part.
-/
import Reparse.Grammar
import Reparse.Wire

namespace Reparse.Wire.Format

def symbolInfo : Format SymbolInfo :=
  (text.pair byte).imap (fun (name, bits) => ⟨name, ⟨bits⟩⟩)
    fun info => (info.name, info.flags.bits)

def charSet : Format CharSet :=
  ((list (char.pair char)).pair bool).imap (fun (ranges, negated) => ⟨ranges, negated⟩)
    fun set => (set.ranges, set.negated)

/-- Variant 0 advances and variant 1 skips. -/
def lexStep : Format LexStep where
  write
    | .advance target => variant.write 0 ++ word.write target
    | .skip target => variant.write 1 ++ word.write target
  read bytes :=
    match variant.read bytes with
    | .error e => .error e
    | .ok (0, rest) => (word.imap LexStep.advance LexStep.target).read rest
    | .ok (1, rest) => (word.imap LexStep.skip LexStep.target).read rest
    | .ok _ => .error .badVariant

def transition : Format Transition :=
  (charSet.pair lexStep).imap (fun (chars, step) => ⟨chars, step⟩)
    fun transition => (transition.chars, transition.step)

def lexState : Format LexState :=
  ((option word).pair ((option lexStep).pair (list transition))).imap
    (fun (accept, atEnd, transitions) => ⟨accept, atEnd, transitions⟩)
    fun state => (state.accept, state.atEnd, state.transitions)

/-- Variant 0 shifts, 1 reduces, 2 accepts and 3 recovers. -/
def parseAction : Format ParseAction where
  write
    | .shift target => variant.write 0 ++ word.write target
    | .reduce symbol count => variant.write 1 ++ (word.pair byte).write (symbol, count)
    | .accept => variant.write 2
    | .recover => variant.write 3
  read bytes :=
    match variant.read bytes with
    | .error e => .error e
    | .ok (0, rest) =>
      match word.read rest with
      | .error e => .error e
      | .ok (target, rest) => .ok (.shift target, rest)
    | .ok (1, rest) =>
      match (word.pair byte).read rest with
      | .error e => .error e
      | .ok ((symbol, count), rest) => .ok (.reduce symbol count, rest)
    | .ok (2, rest) => .ok (.accept, rest)
    | .ok (3, rest) => .ok (.recover, rest)
    | .ok _ => .error .badVariant

def parseState : Format ParseState :=
  (word.pair ((list (word.pair parseAction)).pair (list (word.pair word)))).imap
    (fun (lexState, actions, gotos) => ⟨lexState, actions, gotos⟩)
    fun state => (state.lexState, state.actions, state.gotos)

def grammar : Format Grammar :=
  (text.pair (word.pair ((list symbolInfo).pair ((list lexState).pair (list parseState))))).imap
    (fun (name, tokenCount, symbols, lexStates, parseStates) =>
      ⟨name, tokenCount, symbols, lexStates, parseStates⟩)
    fun grammar =>
      (grammar.name, grammar.tokenCount, grammar.symbols, grammar.lexStates, grammar.parseStates)

end Reparse.Wire.Format
