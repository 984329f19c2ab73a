import BallController.Motors
import BallController.Parallel.Aggregates
import BallController.Sequential.Bounds
import BallController.Sequential.Timing
import BallController.Rounds
import BallController.Sequential.CenterLine
import BallController.Following
import BallController.Sequential.Stop
import BallController.Sequential.Ranges
import BallController.Sequential.Axes
import BallController.Sequential.Rates
import BallController.Sequential.Actor
import BallController.Parallel.Routing
import BallController.Parallel.Suppression
import BallController.Parallel.LockStep
import BallController.Parallel.Learning
import BallController.Parallel.Saturation
import BallController.Sequential.Coverage
import BallController.Sequential.Convergence
import BallController.Parallel.Coverage
import BallController.Parallel.YCritic
import BallController.Exploration
import BallController.Parallel.Ranges
import BallController.Draws
import BallController.Sequential.Save
import BallController.Parallel.Lifetime
import BallController.Parallel.Losses
import BallController.Sequential.Lifetime
import BallController.Vision
import BallController.Sequential.Routing
import BallController.Parallel.Confluence
import BallController.Versions
import BallController.Parallel.Devices
