import DiceBot.Main
import DiceBot.Proofs.BotSteps
import DiceBot.Proofs.CommandGrammar
import DiceBot.Proofs.CommandSequences
import DiceBot.Proofs.ExpressionOutcomes
import DiceBot.Proofs.KeptDice
import DiceBot.Proofs.LineEffects
import DiceBot.Proofs.LineWords
import DiceBot.Proofs.NotationGrammar
import DiceBot.Proofs.OwnerIsolation
import DiceBot.Proofs.RelatedSources
import DiceBot.Proofs.RollCaps
import DiceBot.Proofs.RollSequences
import DiceBot.Proofs.RollTotals
import DiceBot.Proofs.RolledDice
import DiceBot.Proofs.SavedHistory
import DiceBot.Proofs.SavedRollOperations
import DiceBot.Proofs.SavedRollReplay
import DiceBot.Proofs.ScriptedRolls
import DiceBot.Proofs.SyntaxErrorPlaces
import DiceBot.Proofs.SoundErrors
import DiceBot.Proofs.WrittenRolls
import DiceBot.Proofs.LineTexts
import DiceBot.Proofs.OutcomeBlocks
import DiceBot.Proofs.CommandLineReplies
import DiceBot.Proofs.MarkedInputs
import DiceBot.Proofs.ShownDice
import DiceBot.Proofs.WordTotals
import DiceBot.Proofs.OppositeModes
import DiceBot.Proofs.OutcomeTexts
import DiceBot.Proofs.SingleTerms
import DiceBot.Proofs.DiceTokens
import DiceBot.Proofs.RollsFromParts
import DiceBot.Proofs.SavingAndRolling
import DiceBot.Proofs.ExpressibleRolls
import DiceBot.Proofs.SeededDraws
import DiceBot.Proofs.BlankTexts
import DiceBot.Proofs.LineSpacing
import DiceBot.Proofs.LoadedTexts
import DiceBot.Proofs.FairDraws
import DiceBot.Proofs.DigitReading
